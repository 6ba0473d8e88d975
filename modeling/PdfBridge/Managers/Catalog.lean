import PdfBridge.Core.Config
import PdfBridge.Foundation.Grouping
import PdfBridge.Foundation.Rank
import PdfBridge.Presentation.ApiSerializers
import Mathlib.Data.String.Basic

/-! The monitored views of the work queue: one polled operation with its queue position, and the
aggregates of all unfinished work. -/
namespace PdfBridge
namespace Monitoring
open Intake Api Grouping Rank

/-! ### Stored names -/

def OperationType.name : OperationType → String
  | .preflight => "PREFLIGHT"
  | .publish => "PUBLISH"
  | .delete => "DELETE"

def OperationState.name : OperationState → String
  | .queued => "QUEUED"
  | .running => "RUNNING"
  | .succeeded => "SUCCEEDED"
  | .failed => "FAILED"
  | .cancelled => "CANCELLED"

def DeletionPhase.name : DeletionPhase → String
  | .deleteActivePoints => "DELETE_ACTIVE_POINTS"
  | .verifyActiveZero => "VERIFY_ACTIVE_ZERO"
  | .deleteScreeningPoints => "DELETE_SCREENING_POINTS"
  | .verifyScreeningZero => "VERIFY_SCREENING_ZERO"
  | .purgeStorage => "PURGE_STORAGE"
  | .commitTombstone => "COMMIT_TOMBSTONE"

def OperationPhase.name : OperationPhase → String
  | .queued => "QUEUED"
  | .extracting => "EXTRACTING"
  | .checkingEligibility => "CHECKING_ELIGIBILITY"
  | .packingFormatterBatches => "PACKING_FORMATTER_BATCHES"
  | .formattingMarkdown => "FORMATTING_MARKDOWN"
  | .validatingMarkdown => "VALIDATING_MARKDOWN"
  | .chunkingMarkdown => "CHUNKING_MARKDOWN"
  | .embeddingDense => "EMBEDDING_DENSE"
  | .embeddingSparse => "EMBEDDING_SPARSE"
  | .upsertingScreeningPoints => "UPSERTING_SCREENING_POINTS"
  | .discoveringCandidates => "DISCOVERING_CANDIDATES"
  | .classifyingCandidates => "CLASSIFYING_CANDIDATES"
  | .sealingRevision => "SEALING_REVISION"
  | .awaitingDecision => "AWAITING_DECISION"
  | .upsertActivePoints => "UPSERT_ACTIVE_POINTS"
  | .verifyActivePoints => "VERIFY_ACTIVE_POINTS"
  | .removeScreeningPoints => "REMOVE_SCREENING_POINTS"
  | .verifyScreeningRemoval => "VERIFY_SCREENING_REMOVAL"
  | .deletion phase => DeletionPhase.name phase
  | .complete => "COMPLETE"

/-! ### One operation -/

/-- The operations that `queue_position` counts: those before the given one in its state. -/
def ahead (o : WorkOperation) (o' : WorkOperation) : Bool :=
  o'.state = o.state && (o'.priority < o.priority || (o'.priority = o.priority &&
    (o'.createdAt < o.createdAt || (o'.createdAt = o.createdAt && o'.id < o.id))))

def queuePosition (c : Catalog) (o : WorkOperation) : Option ℕ :=
  if o.state = .queued then some (c.operations.countP (ahead o) + 1) else none

/-- `max((now - since).total_seconds(), 0.0)`. -/
def ageSeconds (now since : Time) : ℕ := now - since

structure OperationDetail where
  summary : OperationSummary
  documentId : Uuid
  preparedRevisionId : Option Uuid
  replacementTargetDocumentId : Option Uuid
  queuePosition : Option ℕ
  queueAgeSeconds : ℕ
  phaseAgeSeconds : ℕ
  startedAt : Option Time
  failure : Option SanitizedFailure
deriving DecidableEq

def operationDetail (o : WorkOperation) (position : Option ℕ) (now : Time) :
    Outcome OperationDetail := do
  let failure ← safeFailure o.failureCode o.failureMessage o.retryable (some o.phase)
    (o.state = .failed) none
  let summary ← operationSummary o
  require (position.all (1 ≤ ·) = true) .validation
  require (o.state = .failed → failure.isSome = true) .validation
  pure ⟨summary,o.documentId,o.preparedRevisionId,o.replacementTargetDocumentId,position,
    ageSeconds now o.createdAt,ageSeconds now o.phaseStartedAt,o.startedAt,failure⟩

def operationNotFound : ServiceError :=
  .lifecycle "operation_not_found" "The operation was not found." 404

def documentNotFound : ServiceError :=
  .lifecycle "document_not_found" "The document was not found." 404

/-- The polled view of an operation whose document is in an enabled collection. -/
def getOperation (s : Settings) (c : Catalog) (operationId : Uuid) (now : Time) :
    Outcome OperationDetail := do
  let o ← orRaise (c.operations.find? fun o => o.id = operationId) operationNotFound
  let d ← orRaise (c.document? o.documentId) documentNotFound
  require ((s.enabledCollection? d.intake.collectionKey).isSome = true) documentNotFound
  operationDetail o (queuePosition c o) now

/-! ### Metrics -/

abbrev MetricKey := OperationType × OperationState × OperationPhase

def metricKey (o : WorkOperation) : MetricKey := (o.operationType,o.state,o.phase)

/-- `order_by(state, operation_type, phase)`, by the stored names. -/
def metricOrder (k : MetricKey) : String ×ₗ String ×ₗ String :=
  toLex (OperationState.name k.2.1,toLex (OperationType.name k.1,OperationPhase.name k.2.2))

structure MetricRow where
  key : MetricKey
  count : ℕ
  oldestCreated : Time
  oldestPhaseStarted : Time
deriving DecidableEq

/-- `QUEUED`, `RUNNING` or `FAILED`. -/
def unfinished (o : WorkOperation) : Bool := o.state ∈ [.queued,.running,.failed]

def measuredOperations (visible : List CollectionKey) (c : Catalog) : List WorkOperation :=
  (c.documents.rows.filter fun d => d.intake.collectionKey ∈ visible).flatMap fun d =>
    d.operations.rows.filter unfinished

/-- The aggregate row of a group, which is never empty. -/
def metricRow (g : MetricKey × List WorkOperation) : Option MetricRow := do
  let oldestCreated ← (g.2.map (·.createdAt)).min?
  let oldestPhaseStarted ← (g.2.map (·.phaseStartedAt)).min?
  pure ⟨g.1,g.2.length,oldestCreated,oldestPhaseStarted⟩

/-- Aggregate non-succeeded operations without loading document content. -/
def operationMetricRows (visible : List CollectionKey) (c : Catalog) : List MetricRow :=
  ((groups metricKey (measuredOperations visible c)).insertionSort
    fun g g' => metricOrder g.1 ≤ metricOrder g'.1).filterMap metricRow

structure OperationMetricBucket where
  operationType : OperationType
  state : OperationState
  phase : OperationPhase
  count : ℕ
  oldestOperationAgeSeconds : ℕ
  oldestPhaseAgeSeconds : ℕ
deriving DecidableEq

structure OperationMetricsResponse where
  generatedAt : Time
  total : ℕ
  queued : ℕ
  running : ℕ
  failed : ℕ
  oldestQueuedAgeSeconds : Option ℕ
  buckets : List OperationMetricBucket
deriving DecidableEq

/-- The bucket of a row, whose count its contract requires to be positive. -/
def metricBucket (now : Time) (r : MetricRow) : Outcome OperationMetricBucket := do
  require (1 ≤ r.count) .validation
  pure ⟨r.key.1,r.key.2.1,r.key.2.2,r.count,ageSeconds now r.oldestCreated,
    ageSeconds now r.oldestPhaseStarted⟩

/-- The count of the buckets in one state. -/
def stateCount (buckets : List OperationMetricBucket) (state : OperationState) : ℕ :=
  ((buckets.filter fun b => b.state = state).map (·.count)).sum

/-- The bounds of the response and `totals_match_buckets`. -/
def metricsValid (m : OperationMetricsResponse) : Bool :=
  m.buckets.length ≤ 100 && m.total = (m.buckets.map (·.count)).sum &&
  m.queued = stateCount m.buckets .queued && m.running = stateCount m.buckets .running &&
  m.failed = stateCount m.buckets .failed && (m.queued = 0) = m.oldestQueuedAgeSeconds.isNone

/-- Bounded queue and phase aggregates for visible collections. -/
def operationMetrics (definitions : List CollectionDefinition) (now : Time) (c : Catalog) :
    Outcome OperationMetricsResponse := do
  let visible := (definitions.filter (·.enabled)).map (·.key)
  let buckets ← (operationMetricRows visible c).mapM (metricBucket now)
  let queuedAges := (buckets.filter fun b => b.state = .queued).map (·.oldestOperationAgeSeconds)
  let m : OperationMetricsResponse :=
    ⟨now,(buckets.map (·.count)).sum,stateCount buckets .queued,stateCount buckets .running,
      stateCount buckets .failed,queuedAges.max?,buckets⟩
  require (metricsValid m = true) .validation
  pure m

end Monitoring
end PdfBridge
