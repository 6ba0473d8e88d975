import PdfBridge.Core.Config
import PdfBridge.Lifecycle.History
import PdfBridge.Presentation.ApiSerializers

/-! What every reachable document satisfies: its newest operation and its recorded failure fit
its state, its revisions are complete once sealed, a publication has been approved, and the
proofs of a deletion are ordered. -/
namespace PdfBridge
namespace Lifecycle
open Intake Api

/-! ### The newest operation -/

inductive Ending where
  | pending | failed | succeeded | cancelled
deriving DecidableEq

def ending (o : WorkOperation) : Ending :=
  match o.state with
  | .queued | .running => .pending
  | .failed => .failed
  | .succeeded => .succeeded
  | .cancelled => .cancelled

/-- The class and ending of the newest operation in a state. A replaced document keeps its own
finished publication, since the incoming document owns its deletion. -/
def expected (s : DocumentState) (replaced : Bool) : OperationType × Ending :=
  match s with
  | .preflighting => (.preflight,.pending)
  | .preflightFailed => (.preflight,.failed)
  | .reviewRequired => (.preflight,.succeeded)
  | .publishing => (.publish,.pending)
  | .publishFailed => (.publish,.failed)
  | .ready => (.publish,.succeeded)
  | .deleting => if replaced then (.publish,.succeeded) else (.delete,.pending)
  | .deleteFailed => if replaced then (.publish,.succeeded) else (.delete,.failed)
  | .rejected | .cancelled | .deleted =>
      if replaced then (.publish,.succeeded) else (.delete,.succeeded)

/-- The newest operation fits the state, and a failure carries its retryability over. -/
structure Standing (d : Document) (o : WorkOperation) : Prop where
  shape : (o.operationType,ending o) = expected d.state d.replacedByDocumentId.isSome
  retryable : o.state = .failed → o.retryable = d.failureRetryable

/-- The recorded failure of a document: complete in a failed state, absent elsewhere except
for the reason of a rejection. -/
structure FailureInv (d : Document) : Prop where
  failed : failedState d.state = true → d.failureCode.isSome = true ∧ d.failureMessage.isSome = true
  message : failedState d.state = false → d.failureMessage = none
  retryable : failedState d.state = false → d.failureRetryable = false
  code : failedState d.state = false → d.failureCode.isSome = true →
    d.terminalDisposition = some .rejected

structure IntakeInv (s : Settings) (x : PdfBridge.Intake) : Prop where
  contentType : x.contentType = "application/pdf"
  size : 1 ≤ x.sizeBytes
  clean : x.scanState = .clean
  engine : x.scanEngine.isSome = true
  scanned : x.scannedAt.isSome = true
  collection : (s.enabledCollection? x.collectionKey).isSome = true

/-! ### Revisions -/

structure RevisionValid (s : Settings) (key : CollectionKey) (r : PreparedRevision) : Prop where
  drawn : r.id = uuid4 r.createdAt 0
  number : 1 ≤ r.revisionNumber
  target : ∃ definition, s.enabledCollection? key = some definition ∧
    r.identity = definition.identity
  language : ∀ l, r.languageCode = some l → 2 ≤ l.1.length
  reasons : r.incompleteReasons.length ≤ 50
  failed : r.status = .failed → r.failureCode.isSome = true ∧ r.failureMessage.isSome = true
  sound : r.status ≠ .failed → r.failureCode = none ∧ r.failureMessage = none
  complete : r.status = .sealed → sealedSummaryValid r = true

structure RevisionsInv (s : Settings) (bound : Time) (key : CollectionKey)
    (revisions : Table PreparedRevision.id) : Prop where
  valid : ∀ r, r ∈ revisions → RevisionValid s key r
  fresh : ∀ r, r ∈ revisions → r.createdAt < bound
  numbers : ∀ r r', r ∈ revisions → r' ∈ revisions → r.revisionNumber = r'.revisionNumber →
    r = r'

/-! ### Approval -/

/-- The one decision of the document keeps or replaces with exactly this revision. -/
def Decided (d : Document) (r : PreparedRevision) (target : Option Uuid) : Prop :=
  ∃ x, d.decisions = [x] ∧ x.preparedRevisionId = r.id ∧
    r.manifestSha256 = some x.preparedManifestSha256 ∧
    ((x.action = .keep ∧ target = none) ∨
      (x.action = .replace ∧ target = x.targetDocumentId ∧ target.isSome = true))

/-- A sealed revision may be published: it was clear, or the operator decided on it. -/
def Approved (d : Document) (r : PreparedRevision) (target : Option Uuid) : Prop :=
  r ∈ d.preparedRevisions ∧ r.status = .sealed ∧
    ((isPublishable r = true ∧ target = none) ∨ Decided d r target)

/-- The states before any approval. -/
def unapproved (s : DocumentState) : Bool :=
  s = .preflighting || s = .preflightFailed || s = .reviewRequired

/-- The states of an approved document that is not being deleted. -/
def publicationState (s : DocumentState) : Bool :=
  s = .publishing || s = .publishFailed || s = .ready

/-- The publication status that fits the state of the document. -/
def statusFits (s : DocumentState) (p : PublicationStatus) : Prop :=
  match s with
  | .publishing => p = .pending ∨ p = .upserted
  | .publishFailed => p = .failed
  | .ready => p = .verified
  | _ => True

/-- A publication record is bound to an approved revision, and every attempt to publish carries
the same revision and replacement target. -/
def Bound (d : Document) (p : PublicationRecord) : Prop :=
  ∃ r target, Approved d r target ∧ r.id = p.preparedRevisionId ∧
    r.identity.activeQdrantCollection = p.activeQdrantCollection ∧
    r.expectedPointCount = some p.expectedPoints ∧
    ∀ o ∈ d.operations.rows, o.operationType = .publish →
      o.preparedRevisionId = some r.id ∧ o.replacementTargetDocumentId = target

structure PublicationsInv (d : Document) : Prop where
  decided : ∀ x ∈ d.decisions, ∃ r, r ∈ d.preparedRevisions ∧ r.id = x.preparedRevisionId ∧
    r.status = .sealed ∧ r.manifestSha256 = some x.preparedManifestSha256
  singleDecision : d.decisions.length ≤ 1
  decisionTarget : ∀ x ∈ d.decisions, x.action = .replace ↔ x.targetDocumentId.isSome = true
  undecided : unapproved d.state = true → d.decisions = []
  unpublished : unapproved d.state = true → d.publications.rows = []
  single : d.publications.rows.length ≤ 1
  bound : ∀ p ∈ d.publications.rows, Bound d p
  attempts : ∀ o ∈ d.operations.rows, o.operationType = .publish → d.publications.rows ≠ []
  present : publicationState d.state = true → d.publications.rows ≠ []
  status : ∀ p ∈ d.publications.rows, statusFits d.state p.status
  failure : ∀ p ∈ d.publications.rows, p.status = .failed → p.failureCode.isSome = true
  proof : ∀ p ∈ d.publications.rows, p.status = .verified → verifiedSummaryValid p = true

/-! ### Deletion -/

def deletionState (s : DocumentState) : Bool :=
  s = .deleting || s = .deleteFailed || terminalState s

@[simp] theorem deletionState_toState (x : TerminalDisposition) :
    deletionState x.toState = true := by cases x <;> rfl

structure ProgressInv (s : Settings) (d : Document) (p : DeletionProgress) : Prop where
  disposition : d.terminalDisposition = some p.terminalDisposition
  state : d.state = .deleting ∨ d.state = .deleteFailed ∨
    d.state = p.terminalDisposition.toState
  active : ∃ definition, s.enabledCollection? d.intake.collectionKey = some definition ∧
    p.activeQdrantCollection = definition.qdrantCollectionName
  screening : p.screeningQdrantCollection = s.screening
  revision : ∀ id, p.preparedRevisionId = some id → ∃ r, r ∈ d.preparedRevisions ∧ r.id = id
  zeros : p.screeningZeroVerifiedAt.isSome = true → p.activeZeroVerifiedAt.isSome = true
  purged : p.storagePurgedAt.isSome = true → p.screeningZeroVerifiedAt.isSome = true
  tombstoned : p.tombstonedAt.isSome = true ↔ d.state = p.terminalDisposition.toState
  complete : p.tombstonedAt.isSome = true → p.storagePurgedAt.isSome = true
  tombstone : p.tombstonedAt.isSome = true →
    ∃ t, d.tombstone = some t ∧ t.disposition = p.terminalDisposition
  pending : p.tombstonedAt = none → d.tombstone = none
  source : d.storageKey = if p.storagePurgedAt.isSome then none else some (.object d.id)
  replaced : d.replacedByDocumentId.isSome = true → p.terminalDisposition = .deleted
  attempts : ∀ o ∈ d.operations.rows, o.operationType = .delete →
    o.preparedRevisionId = p.preparedRevisionId

/-- A document without a deletion checkpoint is not being deleted. -/
structure LiveInv (d : Document) : Prop where
  state : deletionState d.state = false
  disposition : d.terminalDisposition = none
  tombstone : d.tombstone = none
  replaced : d.replacedByDocumentId = none
  source : d.storageKey = some (.object d.id)
  attempts : ∀ o ∈ d.operations.rows, o.operationType ≠ .delete

def DeletionInv (s : Settings) (d : Document) : Prop :=
  match d.deletionProgress with
  | none => LiveInv d
  | some p => ProgressInv s d p

/-! ### Documents -/

structure DocumentInv (s : Settings) (bound : Time) (d : Document) : Prop where
  drawn : d.id = uuid4 d.createdAt 0
  fresh : d.createdAt < bound
  intake : IntakeInv s d.intake
  operations : OperationsInv bound d.id d.operations.rows
  standing : ∃ o, newest d = some o ∧ Standing d o
  failure : FailureInv d
  revisions : RevisionsInv s bound d.intake.collectionKey d.preparedRevisions
  publications : PublicationsInv d
  deletion : DeletionInv s d

variable {s : Settings} {b b' : Time} {d : Document} {o : WorkOperation}

theorem isOpen_iff : o.isOpen = true ↔ ending o = .pending := by
  unfold WorkOperation.isOpen ending
  cases o.state <;> simp

theorem ending_eq_failed : ending o = .failed ↔ o.state = .failed := by
  unfold ending
  cases o.state <;> simp

theorem ending_eq_succeeded : ending o = .succeeded ↔ o.state = .succeeded := by
  unfold ending
  cases o.state <;> simp

theorem isOpen_of_ending {e : Ending} (h : ending o = e) (he : e ≠ .pending) :
    o.isOpen = false := by
  rw [← Bool.not_eq_true, isOpen_iff, h]
  exact he

theorem RevisionsInv.mono {key : CollectionKey} {t : Table PreparedRevision.id}
    (h : RevisionsInv s b key t) (hb : b ≤ b') : RevisionsInv s b' key t :=
  {h with fresh := fun r hr => (h.fresh r hr).trans_le hb}

theorem DocumentInv.mono (h : DocumentInv s b d) (hb : b ≤ b') : DocumentInv s b' d :=
  {h with
    fresh := h.fresh.trans_le hb
    operations := h.operations.mono hb
    revisions := h.revisions.mono hb}

theorem DeletionInv.live (h : DeletionInv s d) (hs : deletionState d.state = false) :
    d.deletionProgress = none ∧ LiveInv d := by
  unfold DeletionInv at h
  cases hp : d.deletionProgress with
  | none =>
    rw [hp] at h
    exact ⟨rfl,h⟩
  | some p =>
    rw [hp] at h
    rcases h.state with he | he | he
    · rw [he] at hs; cases hs
    · rw [he] at hs; cases hs
    · rw [he, deletionState_toState] at hs; cases hs

theorem DeletionInv.progress (h : DeletionInv s d) (hs : deletionState d.state = true) :
    ∃ p, d.deletionProgress = some p ∧ ProgressInv s d p := by
  unfold DeletionInv at h
  cases hp : d.deletionProgress with
  | none =>
    rw [hp] at h
    rw [h.state] at hs
    cases hs
  | some p =>
    rw [hp] at h
    exact ⟨p,rfl,h⟩

theorem DeletionInv.of_some {p : DeletionProgress} (h : DeletionInv s d)
    (hp : d.deletionProgress = some p) : ProgressInv s d p := by
  unfold DeletionInv at h
  rw [hp] at h
  exact h

theorem ProgressInv.deletion {p : DeletionProgress} (h : ProgressInv s d p)
    (hp : d.deletionProgress = some p) : DeletionInv s d := by
  unfold DeletionInv
  rw [hp]
  exact h

theorem LiveInv.deletion (h : LiveInv d) (hp : d.deletionProgress = none) :
    DeletionInv s d := by
  unfold DeletionInv
  rw [hp]
  exact h

/-- An open operation is the newest one, and its class names the state. -/
theorem DocumentInv.state_of_isOpen (h : DocumentInv s b d) (ho : o ∈ d.operations.rows)
    (hopen : o.isOpen = true) : newest d = some o ∧ Standing d o := by
  have hn := h.operations.newest_of_isOpen ho hopen
  obtain ⟨o',ho',hs⟩ := h.standing
  rw [hn] at ho'
  cases ho'
  exact ⟨hn,hs⟩

end Lifecycle
end PdfBridge
