import PdfBridge.Persistence.Catalog

/-! Transactional lifecycle and queue transitions. A function that mutates the rows of one
document returns the changed document; the mutations at the end return the new catalog. -/
namespace PdfBridge
namespace Intake

/-! ### Durable operations -/

def preflightOperationPhases : OperationPhase → Bool
  | .queued | .extracting | .checkingEligibility | .packingFormatterBatches
  | .formattingMarkdown | .validatingMarkdown | .chunkingMarkdown | .embeddingDense
  | .embeddingSparse | .upsertingScreeningPoints | .discoveringCandidates
  | .classifyingCandidates | .sealingRevision => true
  | _ => false

def publicationOperationPhases : OperationPhase → Bool
  | .queued | .upsertActivePoints | .verifyActivePoints | .removeScreeningPoints
  | .verifyScreeningRemoval => true
  | _ => false

def deletionOperationPhases : OperationPhase → Bool
  | .queued | .deletion _ => true
  | _ => false

/-- The phases in which an operation of a work class may be queued. -/
def allowedPhase (type : OperationType) (replacementDelete : Bool) (phase : OperationPhase) :
    Bool :=
  match type with
  | .preflight => preflightOperationPhases phase
  | .publish =>
      publicationOperationPhases phase || (replacementDelete && deletionOperationPhases phase)
  | .delete => deletionOperationPhases phase

def priorityForOperation (type : OperationType) (replacementDelete : Bool) :
    Option OperationPriority :=
  match type, replacementDelete with
  | .publish, true => some .replacement
  | _, true => none
  | .delete, false => some .high
  | .publish, false => some .publish
  | .preflight, false => some .normal

/-- `OperationPriority(value)`. -/
def priorityOfValue? : ℕ → Option OperationPriority
  | 0 => some .high
  | 10 => some .replacement
  | 20 => some .publish
  | 30 => some .normal
  | _ => none

def nextAttempt (d : Document) (type : OperationType) : ℕ :=
  ((d.operations.rows.filter fun o => o.operationType = type).map (·.attempt)).foldr max 0 + 1

/-- `set_operation_phase`: the phase clock moves only when the phase does. -/
def setOperationPhase (now : Time) (o : WorkOperation) (phase : OperationPhase) : WorkOperation :=
  if o.phase = phase then o else {o with phase := phase, phaseStartedAt := now}

/-- The queued row of a new operation. -/
def newOperation (now : Time) (d : Document) (type : OperationType)
    (priority : OperationPriority) (revisionId target : Option Uuid) (phase : OperationPhase) :
    WorkOperation where
  id := uuid4 now 0
  documentId := d.id
  preparedRevisionId := revisionId
  replacementTargetDocumentId := target
  operationType := type
  priority := priority.value
  state := .queued
  phase := phase
  phaseStartedAt := now
  attempt := nextAttempt d type
  workerId := none
  leaseExpiresAt := none
  failureCode := none
  failureMessage := none
  retryable := true
  createdAt := now
  startedAt := none
  completedAt := none

/-- Create one durable immediately eligible operation. -/
def enqueueOperation (now : Time) (d : Document) (type : OperationType)
    (priority : OperationPriority) (revisionId target : Option Uuid) (phase : OperationPhase) :
    Outcome (WorkOperation × Document) := do
  let expected ← orRaise (priorityForOperation type target.isSome)
    (.lifecycle "operation_binding_invalid"
      "Only a publication operation can own replacement deletion." 500)
  require (priority = expected)
    (.lifecycle "operation_priority_invalid"
      "The operation priority does not match its durable work class." 500)
  require (target ≠ some d.id)
    (.lifecycle "operation_binding_invalid"
      "A replacement operation cannot target its incoming document." 500)
  require (allowedPhase type target.isSome phase = true)
    (.lifecycle "operation_phase_invalid"
      "The resume phase does not belong to the operation work class." 500)
  let operation := newOperation now d type priority revisionId target phase
  pure (operation,d.putOperation operation)

/-- `latest_operation` of one work class. -/
def latestOperation (d : Document) (type : OperationType) : Option WorkOperation :=
  latestBy (fun o => toLex (o.attempt,toLex (o.createdAt,o.id)))
    (d.operations.rows.filter fun o => o.operationType = type)

def latestSealedRevision (d : Document) : Option PreparedRevision :=
  latestBy (·.revisionNumber) (d.preparedRevisions.rows.filter fun r => r.status = .sealed)

/-- The newest preparation attempt, including an incomplete one. -/
def latestRevision (d : Document) : Option PreparedRevision :=
  latestBy (·.revisionNumber) d.preparedRevisions.rows

def getDocumentForUpdate (c : Catalog) (id : Uuid) : Outcome Document :=
  orRaise (c.document? id)
    (.lifecycle "document_not_found" "The document was not found." 404)

/-- The direct delete of a document or the publication that owns its replacement cleanup. -/
def latestDeletionOperation (c : Catalog) (documentId : Uuid) : Option WorkOperation :=
  latestBy (fun o => toLex (o.createdAt,o.id)) (c.operations.filter fun o =>
    (o.documentId = documentId && o.operationType = .delete) ||
    (o.replacementTargetDocumentId = some documentId && o.operationType = .publish))

/-! ### Publication -/

/-- The pending checkpoint of a new publication. -/
def newPublication (now : Time) (r : PreparedRevision) (expected : ℕ) : PublicationRecord where
  id := uuid4 now 0
  preparedRevisionId := r.id
  activeQdrantCollection := r.identity.activeQdrantCollection
  status := .pending
  expectedPoints := expected
  verifiedPoints := none
  payloadRevisionVerified := false
  vectorSchemaVerified := false
  screeningZeroVerified := false
  failureCode := none
  createdAt := now
  verifiedAt := none

/-- Create or validate the one exact-target publication checkpoint. -/
def ensurePublicationRecord (now : Time) (d : Document) (r : PreparedRevision) :
    Outcome Document := do
  let invalid := ServiceError.lifecycle "publication_binding_invalid"
    "Publication requires a sealed revision belonging to the document." 500
  require ((d.revision? r.id).isSome = true ∧ r.status = .sealed) invalid
  let expected ← orRaise r.expectedPointCount invalid
  match d.publicationForRevision r.id with
  | none => pure (d.putPublication (newPublication now r expected))
  | some p => do
      require (p.activeQdrantCollection = r.identity.activeQdrantCollection ∧
          p.expectedPoints = expected)
        (.lifecycle "publication_binding_invalid"
          "The publication checkpoint does not match its sealed revision." 500)
      require (p.status = .pending)
        (.lifecycle "publication_already_started"
          "The prepared revision already has a non-pending publication checkpoint." 409)
      pure d

def openPublicationOperation (d : Document) (revisionId : Uuid) : Option WorkOperation :=
  latestBy (·.attempt) (d.operations.rows.filter fun o =>
    o.preparedRevisionId = some revisionId && o.operationType = .publish &&
    o.replacementTargetDocumentId = none && o.isOpen)

/-- The gate of automatic publication: sealed, clear, complete and without a candidate. -/
def isPublishable (r : PreparedRevision) : Bool :=
  r.status = .sealed && r.clearForPublication && r.formatterComplete && r.vectorComplete &&
  r.candidateDiscoveryComplete && r.advisoryComplete && r.incompleteReasons.isEmpty &&
  r.content.candidates.isEmpty

/-- Queue automatic publication for a complete candidate-free revision. -/
def queueClearPublication (now : Time) (d : Document) (r : PreparedRevision) :
    Outcome (WorkOperation × Document) := do
  if d.state = .publishing then
    let existing ← orRaise (openPublicationOperation d r.id)
      (.lifecycle "publication_operation_missing"
        "The publishing document has no active publication operation." 500)
    pure (existing,d)
  else do
    require (d.state = .preflighting ∧ (d.revision? r.id).isSome = true ∧
        isPublishable r = true)
      (.lifecycle "revision_not_publishable"
        "The prepared revision is not clear for publication." 409)
    let d ← ensurePublicationRecord now d r
    enqueueOperation now {d.clearFailure with state := .publishing} .publish .publish
      (some r.id) none .queued

/-- The successful publication target of a `READY` document. -/
def verifiedReadyBinding (d : Document) : Outcome (PreparedRevision × PublicationRecord) := do
  let p ← orRaise (latestBy (fun p => toLex (p.verifiedAt.getD 0,p.createdAt))
      (d.publications.rows.filter fun p => p.status = .verified))
    (.lifecycle "publication_record_missing"
      "A READY document has no verified publication checkpoint." 500)
  let invalid := ServiceError.lifecycle "publication_binding_invalid"
    "The verified publication checkpoint is not bound to its sealed revision." 500
  let r ← orRaise (d.revision? p.preparedRevisionId) invalid
  require (r.status = .sealed ∧ r.identity.activeQdrantCollection = p.activeQdrantCollection ∧
    r.expectedPointCount = some p.expectedPoints) invalid
  pure (r,p)

/-! ### Deletion -/

/-- Fail hard when a deletion target is not pinned to the named catalog rows. -/
def validateDeletionBinding (d : Document) (revisionId publicationId : Option Uuid)
    (active : Text 255) : Outcome Unit := do
  match revisionId with
  | none => pure ()
  | some id =>
      require ((d.revision? id).any (·.identity.activeQdrantCollection = active))
        (.lifecycle "deletion_binding_invalid"
          "The deletion revision does not match the document and active target." 500)
  match publicationId with
  | none => pure ()
  | some id =>
      require ((d.publications.lookup id).any fun p =>
          some p.preparedRevisionId = revisionId && p.activeQdrantCollection = active)
        (.lifecycle "deletion_binding_invalid"
          "The deletion publication checkpoint does not match the exact target." 500)

def freshProgress (disposition : TerminalDisposition) (active screening : Text 255)
    (revisionId publicationId : Option Uuid) : DeletionProgress where
  preparedRevisionId := revisionId
  publicationRecordId := publicationId
  terminalDisposition := disposition
  activeQdrantCollection := active
  screeningQdrantCollection := screening
  phase := .deleteActivePoints
  activeZeroVerifiedAt := none
  screeningZeroVerifiedAt := none
  storagePurgedAt := none
  tombstonedAt := none
  failureCode := none
  attempts := 0

/-- Block reads and durably queue point-first terminal cleanup. -/
def beginDeletion (now : Time) (c : Catalog) (d : Document) (disposition : TerminalDisposition)
    (active screening : Text 255) (revisionId publicationId : Option Uuid) :
    Outcome (WorkOperation × Document) := do
  require (active ≠ screening)
    (.lifecycle "collection_configuration_invalid"
      "Active and screening collection targets must be distinct." 500)
  validateDeletionBinding d revisionId publicationId active
  match d.deletionProgress with
  | some progress => do
      require ((d.state = .deleting ∨ d.state = .deleteFailed) ∧
          d.terminalDisposition = some progress.terminalDisposition)
        (.lifecycle "deletion_binding_invalid"
          "The deletion checkpoint does not match the document lifecycle." 500)
      require (progress.terminalDisposition = disposition ∧
          progress.activeQdrantCollection = active ∧
          progress.screeningQdrantCollection = screening ∧
          progress.preparedRevisionId = revisionId ∧
          progress.publicationRecordId = publicationId)
        (.lifecycle "deletion_binding_conflict"
          "The document already has a different terminal cleanup binding." 409)
      let operation ← orRaise (latestDeletionOperation c d.id)
        (.lifecycle "deletion_operation_missing"
          "The deletion checkpoint has no durable owning operation." 500)
      pure (operation,d)
  | none => do
      require (d.state ∉ [.deleting,.deleteFailed,.rejected,.cancelled,.deleted])
        (.lifecycle "deletion_binding_invalid"
          "The document deletion lifecycle is missing its durable checkpoint." 500)
      enqueueOperation now
        {d.clearFailure with
          deletionProgress :=
            some (freshProgress disposition active screening revisionId publicationId)
          state := .deleting, terminalDisposition := some disposition}
        .delete .high revisionId none .queued

/-- Resolve the persisted physical target without re-resolving stable work. -/
def deletionTargetForState (d : Document) (configuredActive : Text 255) :
    Outcome (Text 255 × Option PreparedRevision × Option PublicationRecord) := do
  match d.state with
  | .ready => do
      let (r,p) ← verifiedReadyBinding d
      pure (p.activeQdrantCollection,some r,some p)
  | .reviewRequired => do
      let r ← orRaise (latestSealedRevision d)
        (.lifecycle "prepared_revision_missing"
          "The review document has no sealed prepared revision." 500)
      match d.publicationForRevision r.id with
      | none => pure (r.identity.activeQdrantCollection,some r,none)
      | some p => do
          require (p.activeQdrantCollection = r.identity.activeQdrantCollection ∧
              r.expectedPointCount = some p.expectedPoints)
            (.lifecycle "publication_binding_invalid"
              "The review publication checkpoint does not match its revision." 500)
          pure (r.identity.activeQdrantCollection,some r,some p)
  | .publishFailed => do
      let missing := ServiceError.lifecycle "publication_record_missing"
        "The failed publication has no matching exact-target checkpoint." 500
      let p ← orRaise (latestBy (·.createdAt) d.publications.rows) missing
      let r ← orRaise (d.revision? p.preparedRevisionId) missing
      require (r.status = .sealed ∧ p.status ≠ .verified ∧
        p.activeQdrantCollection = r.identity.activeQdrantCollection ∧
        r.expectedPointCount = some p.expectedPoints) missing
      pure (p.activeQdrantCollection,some r,some p)
  | _ =>
      match latestRevision d with
      | some r => pure (r.identity.activeQdrantCollection,some r,none)
      | none => pure (configuredActive,none,none)

/-- Keep `REJECTED` truthful by purging asynchronously through `DELETING` first. -/
def queueRejectionCleanup (now : Time) (c : Catalog) (d : Document) (reasonCode : FailureCode)
    (active screening : Text 255) (revisionId : Option Uuid) :
    Outcome (WorkOperation × Document) := do
  if d.state = .deleting ∨ d.state = .deleteFailed then do
    require (d.terminalDisposition = some .rejected)
      (.lifecycle "deletion_disposition_conflict"
        "The document is already being purged for a different disposition." 409)
    require (d.failureCode = none ∨ d.failureCode = some reasonCode)
      (.lifecycle "rejection_reason_conflict"
        "The rejection cleanup already has a different terminal reason." 409)
  else
    require (d.state = .preflighting ∨ d.state = .preflightFailed)
      (.lifecycle "document_state_conflict"
        "Only preflight work can transition to asynchronous rejection cleanup." 409)
  let (operation,d) ← beginDeletion now c d .rejected active screening revisionId none
  -- the transition cleared the failure; the reason returns for the tombstone, alone
  pure (operation,{d with failureCode := some reasonCode})

/-- Commit the final content-free state after verified point and storage purge. -/
def commitTombstone (now : Time) (d : Document) (reasonCode : Option FailureCode)
    (actorId : Text 255) : Outcome Document := do
  match d.tombstone with
  | some existing => do
      require (d.deletionProgress.any (fun p => existing.disposition = p.terminalDisposition &&
          p.tombstonedAt.isSome) && d.state = existing.disposition.toState)
        (.lifecycle "tombstone_binding_invalid"
          "The retained tombstone does not match the document lifecycle." 500)
      pure d
  | none => do
      require (d.state = .deleting ∨ d.state = .deleteFailed)
        (.lifecycle "document_state_conflict"
          "A tombstone can only finish an active deletion workflow." 500)
      let incomplete := ServiceError.lifecycle "deletion_checkpoint_incomplete"
        "Storage purge must be verified before a terminal tombstone is committed." 500
      let progress ← orRaise d.deletionProgress incomplete
      require (progress.storagePurgedAt.isSome) incomplete
      require (d.terminalDisposition = some progress.terminalDisposition)
        (.lifecycle "deletion_disposition_conflict"
          "The deletion checkpoint disposition does not match the document." 500)
      require (progress.activeZeroVerifiedAt.isSome ∧ progress.screeningZeroVerifiedAt.isSome)
        (.lifecycle "index_cleanup_incomplete"
          "Both active and screening point counts must be zero before tombstoning." 500)
      require (d.storageKey = none)
        (.lifecycle "source_not_purged"
          "The source object still exists in the catalog." 500)
      let revision := progress.preparedRevisionId.bind d.revision?
      require (progress.preparedRevisionId.isSome = revision.isSome)
        (.lifecycle "deletion_binding_invalid"
          "The deletion checkpoint revision no longer matches the document." 500)
      require (∀ r ∈ d.preparedRevisions.rows, r.content = .empty)
        (.lifecycle "content_purge_incomplete"
          "Revision content remains after the storage purge checkpoint." 500)
      let terminal := progress.terminalDisposition.toState
      let tombstone : Tombstone :=
        { collectionKey := d.intake.collectionKey, disposition := progress.terminalDisposition,
          sourceSha256 := d.intake.sha256, manifestSha256 := revision.bind (·.manifestSha256),
          reasonCode := reasonCode, actorId := actorId, occurredAt := now }
      pure {d with
        tombstone := some tombstone, state := terminal,
        terminalDisposition := some progress.terminalDisposition, failureRetryable := false,
        failureMessage := none,
        failureCode := if terminal = .rejected then reasonCode else none,
        rejectedAt := if terminal = .rejected then some now else d.rejectedAt,
        cancelledAt := if terminal = .cancelled then some now else d.cancelledAt,
        deletedAt := if terminal = .deleted then some now else d.deletedAt,
        deletionProgress := some {progress with
          phase := .commitTombstone, failureCode := none, tombstonedAt := some now}}

/-! ### Operator mutations -/

/-- The part of an idempotency reservation that the mutations check. -/
structure IdempotencyRecord where
  actorId : Text 255
  completedAt : Option Time
deriving DecidableEq

/-- The document and operation answered to the operator, and the catalog to commit. -/
structure MutationOutcome where
  document : Document
  operation : WorkOperation
  catalog : Catalog

def requireReservation (idempotency : IdempotencyRecord) (actorId : Text 255)
    (message : String) : Outcome Unit :=
  require (idempotency.actorId = actorId ∧ idempotency.completedAt = none)
    (.lifecycle "idempotency_binding_invalid" message 500)

def requireCurrentReviewRevision (d : Document) (revisionId : Uuid) :
    Outcome (PreparedRevision × Digest) := do
  require (d.state = .reviewRequired)
    (.lifecycle "document_state_conflict"
      "A review decision is not allowed in the document's current state." 409)
  let stale := ServiceError.lifecycle "stale_prepared_revision"
    "The decision does not name the current sealed prepared revision." 409
  let r ← orRaise (d.revision? revisionId) stale
  require (r.status = .sealed ∧ (latestSealedRevision d).map (·.id) = some r.id) stale
  let manifest ← orRaise r.manifestSha256 stale
  require (d.decisionOf r.id = none)
    (.lifecycle "decision_exists" "This prepared revision already has a decision." 409)
  pure (r,manifest)

def validateReplacementTarget (c : Catalog) (incoming : Document) (targetId : Uuid) :
    Outcome (Document × PreparedRevision × PublicationRecord) := do
  require (targetId ≠ incoming.id)
    (.lifecycle "invalid_replacement_target" "A document cannot replace itself." 409)
  let invalid := ServiceError.lifecycle "invalid_replacement_target"
    "The replacement target must be in the same configured collection." 409
  let target ← orRaise (c.document? targetId) invalid
  require (target.intake.collectionKey = incoming.intake.collectionKey) invalid
  require (target.state = .ready)
    (.lifecycle "replacement_target_unavailable"
      "The replacement target is no longer READY." 409)
  require (target.replacedByDocumentId = none)
    (.lifecycle "replacement_target_busy"
      "The replacement target is already bound to another incoming document." 409)
  require (∀ o ∈ c.operations, ¬ ((o.documentId = target.id ∨
      o.replacementTargetDocumentId = some target.id) ∧ o.isOpen = true))
    (.lifecycle "replacement_target_busy"
      "The replacement target is already being changed." 409)
  let (r,p) ← verifiedReadyBinding target
  pure (target,r,p)

/-- Queue one workflow that proves old deletion before publishing the incoming revision. -/
def beginReplacement (now : Time) (incoming : Document) (r : PreparedRevision)
    (target : Document) (targetRevision : PreparedRevision)
    (targetPublication : PublicationRecord) (screening : Text 255) :
    Outcome (WorkOperation × Document × Document) := do
  require (target.deletionProgress = none)
    (.lifecycle "replacement_target_busy"
      "The replacement target already has a deletion checkpoint." 409)
  require (targetPublication.activeQdrantCollection ≠ screening)
    (.lifecycle "collection_configuration_invalid"
      "Active and screening collection targets must be distinct." 500)
  let incoming ← ensurePublicationRecord now incoming r
  let target := {target.clearFailure with
    deletionProgress := some (freshProgress .deleted targetPublication.activeQdrantCollection
      screening (some targetRevision.id) (some targetPublication.id))
    state := .deleting, terminalDisposition := some .deleted,
    replacedByDocumentId := some incoming.id}
  let (operation,incoming) ← enqueueOperation now
    {incoming.clearFailure with state := .publishing} .publish .replacement (some r.id)
    (some target.id) .queued
  pure (operation,incoming,target)

/-- Bind a Keep/Replace/Cancel action to the exact inspected manifest. -/
def recordDecision (now : Time) (screening : Text 255) (c : Catalog) (documentId : Uuid)
    (revisionId : Uuid) (action : DecisionAction) (targetId : Option Uuid)
    (idempotency : IdempotencyRecord) (actorId : Text 255) : Outcome MutationOutcome := do
  requireReservation idempotency actorId
    "The decision idempotency reservation does not belong to this actor or request."
  let d ← getDocumentForUpdate c documentId
  let (r,manifest) ← requireCurrentReviewRevision d revisionId
  let decided := {d with decisions := d.decisions ++ [
    { id := uuid4 now 0, preparedRevisionId := r.id, preparedManifestSha256 := manifest,
      action := action, targetDocumentId := targetId, actorId := actorId, createdAt := now }]}
  match action with
  | .replace => do
      let targetId ← orRaise targetId
        (.lifecycle "replacement_target_required" "Replace requires one target document." 409)
      let (target,targetRevision,targetPublication) ← validateReplacementTarget c d targetId
      let (operation,d,target) ←
        beginReplacement now decided r target targetRevision targetPublication screening
      pure ⟨d,operation,(c.put target).put d⟩
  | .cancel => do
      require (targetId = none)
        (.lifecycle "unexpected_replacement_target"
          "Keep and Cancel do not accept a target." 409)
      let (operation,d) ← beginDeletion now c decided .cancelled
        r.identity.activeQdrantCollection screening (some r.id) none
      pure ⟨d,operation,c.put d⟩
  | .keep => do
      require (targetId = none)
        (.lifecycle "unexpected_replacement_target"
          "Keep and Cancel do not accept a target." 409)
      let d ← ensurePublicationRecord now decided r
      let (operation,d) ← enqueueOperation now {d with state := .publishing} .publish .publish
        (some r.id) none .queued
      pure ⟨d,operation,c.put d⟩

/-- The document whose failed operation a retry resumes: a failed replacement target is
resumed through its incoming document. -/
def retryOwner (c : Catalog) (requested : Document) : Outcome Document := do
  match requested.state, requested.replacedByDocumentId with
  | .deleteFailed, some ownerId => do
      let d ← getDocumentForUpdate c ownerId
      require (d.state = .publishFailed ∧ d.failureRetryable = true ∧
          (latestOperation d .publish).any
            (·.replacementTargetDocumentId = some requested.id) = true)
        (.lifecycle "replacement_retry_binding_invalid"
          "The failed replacement does not have one retryable owning publication." 500)
      pure d
  | _, _ => pure requested

/-- The work class that a failed state resumes, and the state it returns to. -/
def retryTransition : DocumentState → Option (OperationType × DocumentState)
  | .preflightFailed => some (.preflight,.preflighting)
  | .publishFailed => some (.publish,.publishing)
  | .deleteFailed => some (.delete,.deleting)
  | _ => none

def resumableFailure (o : WorkOperation) : Bool :=
  o.state = .failed && o.retryable && o.phase ≠ .queued && o.phase ≠ .complete &&
  o.phase ≠ .awaitingDecision

/-- Return the publication of a failed operation to `PENDING`. -/
def resetPublication (d : Document) (revisionId : Option Uuid) : Outcome Document := do
  let id ← orRaise revisionId
    (.lifecycle "publication_record_missing"
      "The failed publication has no prepared revision checkpoint." 500)
  let missing := ServiceError.lifecycle "publication_record_missing"
    "The failed publication has no matching durable revision record." 500
  let p ← orRaise (d.publicationForRevision id) missing
  let r ← orRaise (d.revision? id) missing
  require (r.status = .sealed ∧ p.status ≠ .verified ∧
    p.activeQdrantCollection = r.identity.activeQdrantCollection ∧
    r.expectedPointCount = some p.expectedPoints) missing
  pure (d.putPublication {p with status := .pending, failureCode := none})

/-- The replacement target that a retried publication takes up again. -/
def resumeReplacementTarget (c : Catalog) (targetId : Uuid) : Outcome Document := do
  let missing := ServiceError.lifecycle "deletion_checkpoint_missing"
    "Replacement retry has no old-document deletion checkpoint." 500
  let t ← orRaise (c.document? targetId) missing
  let progress ← orRaise t.deletionProgress missing
  if t.state = .deleteFailed then
    pure {t.clearFailure with
      state := .deleting, deletionProgress := some {progress with failureCode := none}}
  else pure t

/-- Queue only the failed phase, preserving approval and sealed artifacts. -/
def requestRetry (now : Time) (c : Catalog) (documentId : Uuid)
    (idempotency : IdempotencyRecord) (actorId : Text 255) : Outcome MutationOutcome := do
  requireReservation idempotency actorId
    "The retry idempotency reservation does not belong to this actor or request."
  let requested ← getDocumentForUpdate c documentId
  require (requested.failureRetryable = true)
    (.lifecycle "retry_not_allowed" "The document does not have a retryable failure." 409)
  let d ← retryOwner c requested
  let (type,nextState) ← orRaise (retryTransition d.state)
    (.lifecycle "retry_not_allowed"
      "Retry is only available for an explicit failed state." 409)
  let missing := ServiceError.lifecycle "retry_checkpoint_missing"
    "The document has no retryable failed operation checkpoint." 500
  let failed ← orRaise (latestOperation d type) missing
  require (resumableFailure failed = true) missing
  let priority ← orRaise (priorityOfValue? failed.priority)
    (.lifecycle "operation_priority_invalid"
      "The failed operation has an unknown durable priority." 500)
  let target := failed.replacementTargetDocumentId
  require (requested.id = d.id ∨ target = some requested.id)
    (.lifecycle "replacement_retry_binding_invalid"
      "The failed publication no longer owns the requested replacement cleanup." 500)
  let resume (d : Document) (phase : OperationPhase) (c : Catalog) :
      Outcome MutationOutcome := do
    let (operation,d) ← enqueueOperation now {d.clearFailure with state := nextState} type
      priority failed.preparedRevisionId target phase
    let c := c.put d
    pure ⟨(c.document? requested.id).getD d,operation,c⟩
  match type with
  | .preflight => do
      require (target = none)
        (.lifecycle "operation_binding_invalid"
          "Preflight retry cannot own replacement deletion." 500)
      resume d failed.phase c
  | .publish => do
      let d ← resetPublication d failed.preparedRevisionId
      match target with
      | none => resume d failed.phase c
      | some targetId => do
          let t ← resumeReplacementTarget c targetId
          resume d failed.phase (c.put t)
  | .delete => do
      let missing := ServiceError.lifecycle "deletion_checkpoint_missing"
        "The failed deletion has no matching durable checkpoint." 500
      let progress ← orRaise d.deletionProgress missing
      require (progress.preparedRevisionId = failed.preparedRevisionId ∧ target = none) missing
      resume {d with deletionProgress := some {progress with failureCode := none}}
        (.deletion progress.phase) c

/-- Accept idempotent deletion from `READY` or stable unpublished states. -/
def requestDeletion (now : Time) (active screening : Text 255) (c : Catalog)
    (documentId : Uuid) (idempotency : IdempotencyRecord) (actorId : Text 255) :
    Outcome MutationOutcome := do
  requireReservation idempotency actorId
    "The deletion idempotency reservation does not belong to this actor or request."
  let d ← getDocumentForUpdate c documentId
  match d.state with
  | .deleting | .deleteFailed => do
      require (d.terminalDisposition = some .deleted)
        (.lifecycle "deletion_disposition_conflict"
          "The document is already being purged for a different disposition." 409)
      let operation ← orRaise (latestDeletionOperation c d.id)
        (.lifecycle "deletion_operation_missing"
          "The deleting document has no durable owning operation." 500)
      pure ⟨d,operation,c⟩
  | .deleted => do
      let operation ← orRaise (latestDeletionOperation c d.id)
        (.lifecycle "deletion_operation_missing"
          "The deleted document has no retained deletion operation." 500)
      pure ⟨d,operation,c⟩
  | .ready | .preflightFailed | .reviewRequired | .publishFailed => do
      let (target,revision,publication) ← deletionTargetForState d active
      let (operation,d) ← beginDeletion now c d .deleted target screening
        (revision.map (·.id)) (publication.map (·.id))
      pure ⟨d,operation,c.put d⟩
  | _ => .error (.lifecycle "document_state_conflict"
      "The document cannot be deleted from its current state." 409)

end Intake
end PdfBridge
