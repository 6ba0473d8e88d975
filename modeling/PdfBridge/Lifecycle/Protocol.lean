import PdfBridge.Lifecycle.Stages
import PdfBridge.Managers.WorkerProgram

/-! The protocol of a worker thread: what it has established about the documents that it has
locked, the requests that it may make on the strength of that, and what an answer adds. -/
namespace PdfBridge
namespace Lifecycle
open Worker Preparation

/-- What a thread has established, and still relies on while its operation is open. -/
inductive Fact where
  | live
  | held
  /-- The failure of its operation could not be recorded. -/
  | unrecorded
  | zero (collection : Text 255) (documentId : Uuid)
  | purging (documentId : Uuid) (b : PurgeBinding)
  | removed (key : StorageKey)
  | removedArtifacts (documentId : Uuid)
  | tombstoned (documentId : Uuid)
  | publishes (revisionId : Uuid)
  | reconstructed (revisionId : Uuid) (ps : List ChunkPoint)
  | staged (ps : List ChunkPoint)
  | opened (ps : List ChunkPoint)
  | written (a : RevisionArtifact)

abbrev Knowledge := Set Fact

/-- The facts that say which points are stored. -/
def Fact.aboutPoints : Fact → Prop
  | .zero _ _ | .staged _ | .opened _ => True
  | _ => False

/-- The facts about the points of a publication. -/
def Fact.aboutActive : Fact → Prop
  | .staged _ | .opened _ => True
  | _ => False

def Fact.aboutRemoval : Fact → Prop
  | .removed _ | .removedArtifacts _ => True
  | _ => False

/-- The facts that outlive the operation. -/
def Fact.outlives : Fact → Prop
  | .held | .unrecorded => True
  | _ => False

/-- The physical active collection of a logical collection. -/
def activeName? (s : Settings) (key : CollectionKey) : Option (Text 255) :=
  (s.enabledCollection? key).map (·.qdrantCollectionName)

/-- The physical collection of an index target. -/
def targetName? (s : Settings) (key : CollectionKey) : IndexTarget → Option (Text 255)
  | .active => activeName? s key
  | .screening => some s.screening

/-- The documents whose deletion the operation runs: its own, or the one that it replaces. -/
def cleans (x : ClaimedOperation) (id : Uuid) : Prop :=
  (x.operationType = .delete ∧ id = x.documentId) ∨
  (x.operationType = .publish ∧ id ≠ x.documentId ∧ id ∈ x.lockedDocumentIds)

def screeningPoint (p : ChunkPoint) : Point := ⟨p,false,.screening⟩
def stagedPoint (p : ChunkPoint) : Point := ⟨p,false,.publishing⟩
def activePoint (p : ChunkPoint) : Point := ⟨p,true,.active⟩

/-- A prepared point of the document, for the collection that it belongs to. -/
structure OwnPoint (s : Settings) (x : ClaimedOperation) (p : ChunkPoint) : Prop where
  document : p.documentId = x.documentId
  chunk : p.chunkId.documentId = x.documentId
  active : activeName? s x.collectionKey = some p.activeQdrantCollection

/-! ### Answers -/

/-- What the answers to a thread are known to satisfy. -/
def answers (s : Settings) (x : ClaimedOperation) :
    (r : Request) → Except ServiceError r.Response → Prop
  | .catalog .operationSnapshot, .ok a => a.operationType = x.operationType ∧
      a.replacementTargetDocumentId ≠ some x.documentId ∧
      ∀ id, id ∈ x.lockedDocumentIds ↔
        id = x.documentId ∨ a.replacementTargetDocumentId = some id
  | .catalog .preflightSource, .ok a => a.collectionKey = x.collectionKey
  | .catalog (.beginPreparation _), .ok h => h.documentId = x.documentId
  | .catalog (.reconstructChunkPoints _ _), .ok ps => ∀ p ∈ ps, OwnPoint s x p
  | .catalog (.publicationBinding _), .ok a => activeName? s x.collectionKey = some a.1
  | .catalog (.deletionCheckpoint _), .ok a =>
      activeName? s x.collectionKey = some a.2.1 ∧ a.2.2 = s.screening
  | .files (.writeArtifact d _ _ _ _), .ok a => a.storageKey.owner = d
  | .release _, .error _ => False
  | _, _ => True

/-! ### Permitted requests -/

/-- The stages of a preflight work on the revision of the own document. -/
def ofPreflight (x : ClaimedOperation) (K : Knowledge) (documentId : Uuid) : Prop :=
  .live ∈ K ∧ x.operationType = .preflight ∧ documentId = x.documentId

/-- The steps of a deletion work on a document that the operation deletes. -/
def ofDeletion (x : ClaimedOperation) (K : Knowledge) (documentId : Uuid) : Prop :=
  .live ∈ K ∧ cleans x documentId

def permitsCatalog (s : Settings) (x : ClaimedOperation) (K : Knowledge) :
    CatalogRequest → Prop
  | .operationSnapshot | .preflightSource | .reconstructChunkPoints _ _ | .latestMutableRevision
  | .artifactSequence _ _ | .publicationBinding _ | .deletionCheckpoint _ | .deletionFlags _
  | .purgeBinding _ | .loadPreparedMarkdownPages _ | .catalogCandidateContext _ _ _
  | .classificationExcerpts _ _ _ => .live ∈ K
  | .failOperation _ => .held ∈ K
  | .setPhase phase => .live ∈ K ∧ Intake.allowedPhase x.operationType false phase = true
  | .bindRevision _ | .failPreparation _ _ _ | .finishPreflight _ =>
      ofPreflight x K x.documentId
  | .beginPreparation identity => ofPreflight x K x.documentId ∧
      ∃ definition, s.enabledCollection? x.collectionKey = some definition ∧
        identity.revision = definition.identity
  | .recordExtraction h _ | .recordFormatting h _ | .recordChunkVectors h _
  | .recordPreflightCandidates h _ | .appendAdvisoryEvidence h _ =>
      ofPreflight x K h.documentId
  | .sealPreparedRevision h c => ofPreflight x K h.documentId ∧
      c.incompleteReasons ⊆ advisoryReasons
  | .insertArtifact _ a => ofPreflight x K x.documentId ∧ .written a ∈ K
  | .beginOutbox k _ | .completeOutbox k => .live ∈ K ∧ k.documentId ∈ x.lockedDocumentIds
  | .acceptRejection _ active => ofPreflight x K x.documentId ∧
      activeName? s x.collectionKey = some active
  | .markUpserted _ => .live ∈ K ∧ x.operationType = .publish
  | .finishPublication revisionId _ => .live ∈ K ∧ x.operationType = .publish ∧
      .zero s.screening x.documentId ∈ K ∧
      ∃ ps, .reconstructed revisionId ps ∈ K ∧ .opened ps ∈ K
  | .countDeletionAttempt id | .setDeletionPhase id _ | .commitDeletion id => ofDeletion x K id
  | .recordZeroVerification id target => ofDeletion x K id ∧
      ∃ c, targetName? s x.collectionKey target = some c ∧ .zero c id ∈ K
  | .purgeContentRows id b => ofDeletion x K id ∧ .purging id b ∈ K ∧
      .removed b.storageKey ∈ K ∧ .removedArtifacts id ∈ K

/-- Points of a preflight, or the points of the sealed revision that is being published once the
replaced document is gone. -/
def permitsUpsert (s : Settings) (x : ClaimedOperation) (K : Knowledge) (c : Text 255)
    (points : List Point) : Prop :=
  (x.operationType = .preflight ∧ c = s.screening ∧
    ∃ ps : List ChunkPoint, points = ps.map screeningPoint ∧ ∀ p ∈ ps, OwnPoint s x p) ∨
  (x.operationType = .publish ∧ activeName? s x.collectionKey = some c ∧
    (∀ id ∈ x.lockedDocumentIds, id ≠ x.documentId → .tombstoned id ∈ K) ∧
    ∃ (revisionId : Uuid) (ps : List ChunkPoint), .publishes revisionId ∈ K ∧
      .reconstructed revisionId ps ∈ K ∧ points = ps.map stagedPoint ∧ ∀ p ∈ ps, OwnPoint s x p)

def permitsPoints (s : Settings) (x : ClaimedOperation) (K : Knowledge) : PointRequest → Prop
  | .upsert c points => .live ∈ K ∧ permitsUpsert s x K c points
  | .setPayload c d r => .live ∈ K ∧ x.operationType = .publish ∧
      activeName? s x.collectionKey = some c ∧ d = x.documentId ∧
      (∀ id ∈ x.lockedDocumentIds, id ≠ x.documentId → .tombstoned id ∈ K) ∧
      ∃ ps, .publishes r ∈ K ∧ .reconstructed r ps ∈ K ∧ .staged ps ∈ K
  | .delete c d => .live ∈ K ∧ ((c = s.screening ∧ d = x.documentId) ∨ cleans x d)
  | .count _ _ | .retrieve _ _ | .query _ _ _ _ => .live ∈ K

def permitsFiles (x : ClaimedOperation) (K : Knowledge) : FileRequest → Prop
  | .isFile _ => .live ∈ K
  | .writeArtifact d _ _ _ _ => ofPreflight x K d
  | .remove key _ => .live ∈ K ∧ ((∃ a, .written a ∈ K ∧ key = a.storageKey) ∨
      ∃ id b, cleans x id ∧ .purging id b ∈ K ∧ key ∈ b.storageKey :: b.artifactKeys)
  | .removeArtifacts d => ofDeletion x K d ∧ ∃ b, .purging d b ∈ K

/-- The requests that a thread may make. -/
def permits (s : Settings) (x : ClaimedOperation) : Request → Knowledge → Prop
  | .catalog r, K => permitsCatalog s x K r
  | .points r, K => permitsPoints s x K r
  | .files r, K => permitsFiles x K r
  | .provider _, _ | .raise _, _ => True
  | .release claimed, K => claimed = x ∧ (.held ∈ K ∨ .unrecorded ∈ K)

/-! ### What an answer changes -/

/-- The answered request may have ended the operation. -/
def closes (x : ClaimedOperation) : CatalogRequest → Bool → Prop
  | .failOperation _, _ => True
  | .acceptRejection _ _, ok | .finishPreflight _, ok | .finishPublication _ _, ok => ok = true
  | .commitDeletion _, ok => ok = true ∧ x.operationType = .delete
  | _, _ => False

/-- What no longer holds after a request, whether or not it succeeded. -/
def lost (s : Settings) (x : ClaimedOperation) : Request → Bool → Fact → Prop
  | .catalog r, ok, f => (closes x r ok ∧ ¬ f.outlives) ∨
      ∃ id a, r = .insertArtifact id a ∧ ok = true ∧ f = .written a
  | .release _, _, f => f ≠ .unrecorded
  | .points (.upsert _ _), _, f => f.aboutPoints
  | .points (.setPayload _ _ _), _, f => f.aboutActive
  | .points (.delete c _), _, f => c ≠ s.screening ∧ f.aboutActive
  | .files (.writeArtifact _ _ _ _ _), _, f => f.aboutRemoval
  | _, _, _ => False

/-- What an answer establishes. -/
def gained (s : Settings) (x : ClaimedOperation) (K : Knowledge) :
    (r : Request) → Except ServiceError r.Response → Fact → Prop
  | .catalog (.failOperation _), .error _, f => f = .unrecorded
  | .catalog (.publicationBinding id), .ok _, f => f = .publishes id
  | .catalog (.reconstructChunkPoints id true), .ok ps, f => f = .reconstructed id ps
  | .catalog (.deletionFlags id), .ok flags, f =>
      flags.tombstoned = true ∧ f = .tombstoned id
  | .catalog (.purgeBinding id), .ok b, f => f = .purging id b
  | .catalog (.commitDeletion id), .ok _, f =>
      x.operationType = .publish ∧ f = .tombstoned id
  | .points (.count c id), .ok n, f => n = 0 ∧ f = .zero c id
  | .points (.upsert c points), .ok _, f => activeName? s x.collectionKey = some c ∧
      ∃ ps : List ChunkPoint, points = ps.map stagedPoint ∧ f = .staged ps
  | .points (.setPayload _ _ _), .ok _, f => ∃ ps, .staged ps ∈ K ∧ f = .opened ps
  | .files (.writeArtifact _ _ _ _ _), .ok a, f => f = .written a
  | .files (.remove key _), .ok _, f => f = .removed key
  | .files (.removeArtifacts id), .ok _, f => f = .removedArtifacts id
  | _, _, _ => False

/-- What the thread knows after an answer. -/
def next (s : Settings) (x : ClaimedOperation) (r : Request) (K : Knowledge)
    (a : Except ServiceError r.Response) : Knowledge :=
  {f | gained s x K r a f ∨ (f ∈ K ∧ ¬ lost s x r a.toBool f)}

/-- The protocol of the thread that runs a claimed operation. -/
def protocol (s : Settings) (x : ClaimedOperation) : Program.Protocol signature ServiceError
    Knowledge where
  answers := answers s x
  permits := permits s x
  next := next s x

end Lifecycle
end PdfBridge
