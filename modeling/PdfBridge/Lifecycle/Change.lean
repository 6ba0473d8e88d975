import PdfBridge.Lifecycle.Invariant
import PdfBridge.Managers.WorkerCatalog

/-! The lifecycle of one document as a transition relation: every way in which a committed
transaction changes a document, with what is known when it does. -/
namespace PdfBridge
namespace Lifecycle
open Intake

/-! ### Results that several transitions share -/

/-- A document that starts to publish a revision. -/
def beginPublication (now : Time) (d : Document) (r : PreparedRevision) (points : ℕ)
    (priority : OperationPriority) (target : Option Uuid) : Document :=
  let d := {d.clearFailure.putPublication (newPublication now r points) with
    state := .publishing}
  d.putOperation (newOperation now d .publish priority (some r.id) target .queued)

/-- A document whose content will be purged by an operation of its own. -/
def startDeletion (now : Time) (d : Document) (progress : DeletionProgress) : Document :=
  let d := {d.clearFailure with
    deletionProgress := some progress, state := .deleting,
    terminalDisposition := some progress.terminalDisposition}
  d.putOperation (newOperation now d .delete .high progress.preparedRevisionId none .queued)

/-- A document that takes up a failed operation again. -/
def resume (now : Time) (d : Document) (state : DocumentState) (o : WorkOperation)
    (priority : OperationPriority) (phase : OperationPhase) : Document :=
  let d := {d.clearFailure with state := state}
  d.putOperation (newOperation now d o.operationType priority o.preparedRevisionId
    o.replacementTargetDocumentId phase)

/-- A deletion checkpoint that has proved nothing yet. -/
structure FreshProgress (s : Settings) (d : Document) (p : DeletionProgress) : Prop where
  active : ∃ definition, s.enabledCollection? d.intake.collectionKey = some definition ∧
    p.activeQdrantCollection = definition.qdrantCollectionName
  screening : p.screeningQdrantCollection = s.screening
  revision : ∀ id, p.preparedRevisionId = some id → ∃ r, r ∈ d.preparedRevisions ∧ r.id = id
  phase : p.phase = .deleteActivePoints
  activeZero : p.activeZeroVerifiedAt = none
  screeningZero : p.screeningZeroVerifiedAt = none
  purged : p.storagePurgedAt = none
  tombstoned : p.tombstonedAt = none

/-- Progress on a deletion keeps its binding and adds zero proofs in their order. -/
structure Progress (p p' : DeletionProgress) : Prop where
  revision : p'.preparedRevisionId = p.preparedRevisionId
  disposition : p'.terminalDisposition = p.terminalDisposition
  active : p'.activeQdrantCollection = p.activeQdrantCollection
  screening : p'.screeningQdrantCollection = p.screeningQdrantCollection
  activeZero : p.activeZeroVerifiedAt.isSome = true → p'.activeZeroVerifiedAt.isSome = true
  screeningZero : p'.screeningZeroVerifiedAt.isSome = true →
    p.screeningZeroVerifiedAt.isSome = true ∨ p.activeZeroVerifiedAt.isSome = true
  kept : p.screeningZeroVerifiedAt.isSome = true → p'.screeningZeroVerifiedAt.isSome = true
  purged : p'.storagePurgedAt = p.storagePurgedAt
  tombstoned : p'.tombstonedAt = p.tombstonedAt

/-- The tombstoned form of a document, for a purged checkpoint. -/
def tombstoned (now : Time) (d : Document) (p : DeletionProgress) (reason : Option FailureCode)
    (t : Tombstone) : Document :=
  let terminal := p.terminalDisposition.toState
  {d with
    tombstone := some t, state := terminal,
    terminalDisposition := some p.terminalDisposition, failureRetryable := false,
    failureMessage := none, failureCode := if terminal = .rejected then reason else none,
    rejectedAt := if terminal = .rejected then some now else d.rejectedAt,
    cancelledAt := if terminal = .cancelled then some now else d.cancelledAt,
    deletedAt := if terminal = .deleted then some now else d.deletedAt,
    deletionProgress := some {p with
      phase := .commitTombstone, failureCode := none, tombstonedAt := some now}}

/-- The purged form of a document. -/
def purged (now : Time) (d : Document) (p : DeletionProgress) (ids : List Uuid) : Document :=
  {d with
    preparedRevisions := d.preparedRevisions.update (Worker.emptyContent ids)
      (Worker.emptyContent_id ids)
    storageKey := none
    deletionProgress := some {p with
      storagePurgedAt := some now, phase := .commitTombstone}}

/-- The reason that a tombstone retains. -/
def retainedReason (d : Document) : Option FailureCode :=
  if d.terminalDisposition = some .rejected then d.failureCode else none

/-! ### Transitions -/

inductive Change (s : Settings) (rejects : FailureCode → Prop) (now : Time) :
    Document → Document → Prop
  /-- Leases, phases and the revision of a running preflight. -/
  | touch {d : Document} (operations : Table WorkOperation.id)
      (h : List.Forall₂ Touch d.operations.rows operations.rows) :
      Change s rejects now d {d with operations := operations}
  | index {d : Document} (outbox : List IndexOutboxEntry) :
      Change s rejects now d {d with outbox := outbox}
  /-- Preparation opens, fills, fails or seals a revision; sealed ones stay as they are. -/
  | revise {d : Document} (revisions : Table PreparedRevision.id)
      (hsealed : ∀ r, r ∈ d.preparedRevisions → r.status = .sealed → r ∈ revisions)
      (hids : ∀ r, r ∈ d.preparedRevisions → ∃ r', r' ∈ revisions ∧ r'.id = r.id)
      (hinv : RevisionsInv s (now + 1) d.intake.collectionKey revisions) :
      Change s rejects now d {d with preparedRevisions := revisions}
  | review {d : Document} {o o' : WorkOperation} (hstate : d.state = .preflighting)
      (ho : newest d = some o) (hs : Settle o o') (hsucceeded : o'.state = .succeeded)
      {r : PreparedRevision} (hr : r ∈ d.preparedRevisions) (hsealed : r.status = .sealed) :
      Change s rejects now d ({d.clearFailure with state := .reviewRequired}.putOperation o')
  | approve {d : Document} {o o' : WorkOperation} (hstate : d.state = .preflighting)
      (ho : newest d = some o) (hs : Settle o o') (hsucceeded : o'.state = .succeeded)
      {r : PreparedRevision} {points : ℕ} (hr : r ∈ d.preparedRevisions)
      (hpoints : r.expectedPointCount = some points) (hclear : isPublishable r = true) :
      Change s rejects now d ((beginPublication now d r points .publish none).putOperation o')
  | reject {d : Document} {o o' : WorkOperation} (hstate : d.state = .preflighting)
      (ho : newest d = some o) (hs : Settle o o') (hsucceeded : o'.state = .succeeded)
      {p : DeletionProgress} (hp : FreshProgress s d p)
      (hdisposition : p.terminalDisposition = .rejected) {code : FailureCode}
      (hcode : rejects code) :
      Change s rejects now d
        ({startDeletion now d p with failureCode := some code}.putOperation o')
  | fail {d : Document} {o o' : WorkOperation} (ho : newest d = some o)
      (hopen : o.isOpen = true) (hs : Settle o o') (hfailed : o'.state = .failed)
      (code : FailureCode) (message : Text 500) (outbox : List IndexOutboxEntry) :
      Change s rejects now d {Worker.failDocument o code message o'.retryable (d.putOperation o') with
        outbox := outbox}
  | upsert {d : Document} {p : PublicationRecord} (hstate : d.state = .publishing)
      (hp : p ∈ d.publications) :
      Change s rejects now d (d.putPublication {p with status := .upserted, failureCode := none})
  | publish {d : Document} {o o' : WorkOperation} (hstate : d.state = .publishing)
      (ho : newest d = some o) (hs : Settle o o') (hsucceeded : o'.state = .succeeded)
      {p p' : PublicationRecord} (hp : p ∈ d.publications) (hid : p'.id = p.id)
      (hrevision : p'.preparedRevisionId = p.preparedRevisionId)
      (hactive : p'.activeQdrantCollection = p.activeQdrantCollection)
      (hpoints : p'.expectedPoints = p.expectedPoints) (hstatus : p'.status = .verified)
      (hproof : Api.verifiedSummaryValid p' = true) :
      Change s rejects now d ({(d.putPublication p').clearFailure with
        state := .ready, readyAt := some now}.putOperation o')
  /-- Keep or replace. -/
  | decide {d : Document} (hstate : d.state = .reviewRequired) {r : PreparedRevision}
      {points : ℕ} {x : Decision} {priority : OperationPriority} {target : Option Uuid}
      (hr : r ∈ d.preparedRevisions) (hsealed : r.status = .sealed)
      (hpoints : r.expectedPointCount = some points) (hx : x.preparedRevisionId = r.id)
      (hmanifest : r.manifestSha256 = some x.preparedManifestSha256)
      (haction : (x.action = .keep ∧ x.targetDocumentId = none ∧ target = none) ∨
        (x.action = .replace ∧ x.targetDocumentId = target ∧ target.isSome = true))
      (hpriority : priorityForOperation .publish target.isSome = some priority)
      (htarget : target ≠ some d.id) (hid : x.id = uuid4 now 0) :
      Change s rejects now d
        (beginPublication now {d with decisions := d.decisions ++ [x]} r points priority target)
  | cancel {d : Document} (hstate : d.state = .reviewRequired) {r : PreparedRevision}
      {x : Decision} (hr : r ∈ d.preparedRevisions) (hsealed : r.status = .sealed)
      (hx : x.preparedRevisionId = r.id)
      (hmanifest : r.manifestSha256 = some x.preparedManifestSha256)
      (haction : x.action = .cancel ∧ x.targetDocumentId = none) {p : DeletionProgress}
      (hp : FreshProgress s d p) (hdisposition : p.terminalDisposition = .cancelled)
      (hid : x.id = uuid4 now 0) :
      Change s rejects now d (startDeletion now {d with decisions := d.decisions ++ [x]} p)
  | delete {d : Document} (hstate : d.state = .ready ∨ d.state = .preflightFailed ∨
        d.state = .reviewRequired ∨ d.state = .publishFailed)
      {p : DeletionProgress} (hp : FreshProgress s d p)
      (hdisposition : p.terminalDisposition = .deleted) :
      Change s rejects now d (startDeletion now d p)
  /-- The replaced document is deleted by its incoming document. -/
  | yield_ {d : Document} (hstate : d.state = .ready) {p : DeletionProgress}
      (hp : FreshProgress s d p) (hdisposition : p.terminalDisposition = .deleted)
      (owner : Uuid) :
      Change s rejects now d {d.clearFailure with
        deletionProgress := some p, state := .deleting, terminalDisposition := some .deleted,
        replacedByDocumentId := some owner}
  | failYielded {d : Document} (hstate : d.state = .deleting)
      (howner : d.replacedByDocumentId.isSome = true) (code : FailureCode)
      (message : Text 500) (retryable : Bool) (outbox : List IndexOutboxEntry) :
      Change s rejects now d {Worker.failProgress code
        (Worker.Document.fail d .deleteFailed code message retryable) with outbox := outbox}
  | resumeYielded {d : Document} (hstate : d.state = .deleteFailed)
      (howner : d.replacedByDocumentId.isSome = true) {p : DeletionProgress}
      (hp : d.deletionProgress = some p) :
      Change s rejects now d {d.clearFailure with
        state := .deleting, deletionProgress := some {p with failureCode := none}}
  | retryPreflight {d : Document} {o : WorkOperation} (hstate : d.state = .preflightFailed)
      (ho : newest d = some o) {priority : OperationPriority}
      (hpriority : priority.value = o.priority) :
      Change s rejects now d (resume now d .preflighting o priority o.phase)
  | retryPublish {d : Document} {o : WorkOperation} (hstate : d.state = .publishFailed)
      (ho : newest d = some o) {priority : OperationPriority}
      (hpriority : priority.value = o.priority) {p : PublicationRecord}
      (hp : p ∈ d.publications) :
      Change s rejects now d (resume now
        (d.putPublication {p with status := .pending, failureCode := none}) .publishing o
        priority o.phase)
  | retryDelete {d : Document} {o : WorkOperation} (hstate : d.state = .deleteFailed)
      (howner : d.replacedByDocumentId = none) (ho : newest d = some o)
      {priority : OperationPriority} (hpriority : priority.value = o.priority)
      {p : DeletionProgress} (hp : d.deletionProgress = some p) :
      Change s rejects now d (resume now {d with deletionProgress := some {p with failureCode := none}}
        .deleting o priority (.deletion p.phase))
  /-- A deletion moves on, together with the operation when it is the document's own. -/
  | progress {d : Document} {p p' : DeletionProgress} (hp : d.deletionProgress = some p)
      (h : Progress p p') (operations : Table WorkOperation.id)
      (ht : List.Forall₂ Touch d.operations.rows operations.rows) :
      Change s rejects now d {d with operations := operations, deletionProgress := some p'}
  | purge {d : Document} {p : DeletionProgress} (hp : d.deletionProgress = some p)
      (hzero : p.screeningZeroVerifiedAt.isSome = true) (ids : List Uuid)
      (operations : Table WorkOperation.id)
      (ht : List.Forall₂ Touch d.operations.rows operations.rows) :
      Change s rejects now d (purged now {d with operations := operations} p ids)
  | bury {d : Document} {p : DeletionProgress} (hp : d.deletionProgress = some p)
      (hpurged : p.storagePurgedAt.isSome = true)
      (hstate : d.state = .deleting) (howner : d.replacedByDocumentId.isSome = true)
      {t : Tombstone} (ht : t.disposition = p.terminalDisposition)
      (hreason : t.reasonCode = retainedReason d) :
      Change s rejects now d (tombstoned now d p (retainedReason d) t)
  | buryOwn {d : Document} {p : DeletionProgress} (hp : d.deletionProgress = some p)
      (hpurged : p.storagePurgedAt.isSome = true) {o o' : WorkOperation}
      (ho : newest d = some o) (hopen : o.isOpen = true) (hs : Settle o o')
      (hsucceeded : o'.state = .succeeded) {t : Tombstone}
      (ht : t.disposition = p.terminalDisposition) (hreason : t.reasonCode = retainedReason d) :
      Change s rejects now d ((tombstoned now d p (retainedReason d) t).putOperation o')

end Lifecycle
end PdfBridge
