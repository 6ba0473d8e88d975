import PdfBridge.Managers.WorkerRequests

/-! The control flow of a worker thread: preflight, publication and verified deletion as
programs over the atomic requests. -/
namespace PdfBridge
namespace Worker
open Preparation

abbrev Prog (α : Type) := Program signature ServiceError α

def call (r : Request) : Prog r.Response := @Program.request signature ServiceError r

def catalog (r : CatalogRequest) : Prog r.Response := call (.catalog r)
def points (r : PointRequest) : Prog r.Response := call (.points r)
def files (r : FileRequest) : Prog r.Response := call (.files r)
def provider (r : ProviderRequest) : Prog r.Response := call (.provider r)
def release (claimed : ClaimedOperation) : Prog Unit := call (.release claimed)

/-- A computation whose exception is a step of its own. -/
def raising {α : Type} : Outcome α → Prog α
  | .ok a => .pure a
  | .error e => (call (.raise e)).bind fun x => nomatch x

/-- The value or exception of a program, as a value. -/
def attempt {α : Type} (p : Prog α) : Prog (Outcome α) :=
  (p.bind fun a => .pure (.ok a)).tryCatch fun e => .pure (.error e)

/-- A catalog step whose database failure is reported as a preparation failure. -/
def stage (r : CatalogRequest) (failed : ServiceError) : Prog r.Response :=
  (catalog r).tryCatch fun e => .fail (if e = .database then failed else e)

/-! ### Qdrant helpers -/

def upsertPoints (collection : Text 255) (batch : Outcome (List Point)) : Prog Unit := do
  let ps ← Program.lift batch
  points (.upsert collection ps)

def upsertScreeningPoints (collection : Text 255) (ps : List ChunkPoint) : Prog Unit :=
  upsertPoints collection
    (pointBatch .screening "a prepared revision must contain at least one point" ps)

def stageActivePoints (collection : Text 255) (ps : List ChunkPoint) : Prog Unit :=
  upsertPoints collection
    (pointBatch .publishing "publication cannot stage an empty revision" ps)

/-- Verify that every stored point is an exact copy of its prepared chunk. -/
def verifyPreparedPoints (collection : Text 255) (ps : List ChunkPoint) (published : Bool)
    (visibility : Visibility) : Prog Unit := do
  let documentId ← Program.lift (validateBatch ps)
  let total ← points (.count collection documentId)
  Program.require (total = ps.length)
    (consistencyError "the document points did not match the prepared revision")
  let records ← points (.retrieve collection (ps.map (·.chunkId)))
  Program.lift (checkRecords ps published visibility records)

def verifyDocumentZero (collection : Text 255) (documentId : Uuid) : Prog Unit := do
  let total ← points (.count collection documentId)
  Program.require (total = 0) (consistencyError "the document still has points")

/-! ### Content preparation -/

structure ContentPreparationResult where
  handle : PreparationHandle
  extractionSha256 : Digest
  markdownSha256 : Digest
  vectorManifestSha256 : Digest
  points : List ChunkPoint

/-- A stretch of preparation: the formatter exchanges that were captured, and its value or
the exception that becomes the durable failure of the revision. An exception of a progress
callback leaves the program at once. -/
abbrev Stretch (α : Type) := Prog (List ProtectedExchange × Outcome α)

def Stretch.then_ {α β : Type} (p : Stretch α) (f : α → Stretch β) : Stretch β :=
  p.bind fun x => match x.2 with
    | .error e => .pure (x.1,.error e)
    | .ok a => (f a).bind fun y => .pure (x.1 ++ y.1,y.2)

def step {α : Type} (p : Prog α) : Stretch α := (attempt p).bind fun x => .pure ([],x)

/-- A progress callback, and then the next stretch. -/
def checkpoint {α : Type} (phase : OperationPhase) (next : Stretch α) : Stretch α :=
  (catalog (.setPhase phase)).bind fun _ => next

def external {α : Type} (toError : ProviderFailure → ServiceError)
    (x : Except ProviderFailure α) : Prog α :=
  match x with
  | .ok a => .pure a
  | .error e => .fail (toError e)

def captured {α : Type} (p : Prog (Captured α)) : Stretch α :=
  p.bind fun x => .pure (x.exchanges,match x.result with
    | .ok a => .ok a
    | .error e => .error (externalError e))

def formatMarkdownDocument (x : ExtractedDocument) : Stretch FormattedDocument :=
  checkpoint .packingFormatterBatches
    (Stretch.then_ (step (provider (.packFormatterBatches x) >>= external externalError))
      fun _ => checkpoint .formattingMarkdown
        (Stretch.then_ (captured (provider (.requestFormatter x)))
          fun _ => checkpoint .validatingMarkdown (captured (provider (.formatMarkdown x)))))

/-- Chunk and embed detached Markdown with no database transaction open. -/
def buildBundle (enc : Encoding) (h : PreparationHandle) (pages : List PreparedPage) :
    Stretch ChunkVectorBundle :=
  checkpoint .chunkingMarkdown
    (Stretch.then_ (step (provider (.chunkMarkdown h pages) >>= external bundleError))
      fun chunks => checkpoint .embeddingDense
        (Stretch.then_
          (step (provider (.embedDense (chunks.map (·.markdown))) >>= external bundleError))
          fun dense => checkpoint .embeddingSparse
            (step (do
              let sparse ← provider (.embedSparseDocuments (chunks.map (·.markdown)))
              let sparse ← external bundleError sparse
              Program.lift (buildChunkVectorBundle enc h pages chunks dense sparse)))))

def recordContent (enc : Encoding) (h : PreparationHandle) (key : StorageKey) :
    Stretch ContentPreparationResult :=
  Stretch.then_ (step (provider (.extract key) >>= external externalError)) fun x =>
  checkpoint .checkingEligibility <|
  Stretch.then_ (step (do
    let eligible ← provider (.validateNativeEnglish x)
    external externalError eligible
    stage (.recordExtraction h x)
      (preparationError "record_extraction_failed"
        "extraction artifacts could not be recorded"))) fun extraction =>
  Stretch.then_ (formatMarkdownDocument x) fun formatted =>
  Stretch.then_ (step (do
    let markdown ← stage (.recordFormatting h formatted)
      (preparationError "record_formatting_failed"
        "formatter artifacts could not be recorded")
    let pages ← stage (.loadPreparedMarkdownPages h)
      (preparationError "load_markdown_failed" "prepared Markdown could not be loaded")
    .pure (markdown,pages))) fun prepared =>
  Stretch.then_ (buildBundle enc h prepared.2) fun bundle =>
  step (do
    let vectors ← stage (.recordChunkVectors h bundle)
      (preparationError "record_vectors_failed"
        "chunk vector artifacts could not be recorded")
    let ps ← stage (.reconstructChunkPoints h.revisionId false)
      (preparationError "reconstruct_points_failed"
        "prepared publication points could not be reconstructed")
    .pure ⟨h,extraction,prepared.1,vectors,ps⟩)

def failPreparation (revisionId : Uuid) (code : FailureCode) (message : Text 500) :
    Prog Unit :=
  stage (.failPreparation revisionId code message)
    (preparationError "record_failure_failed" "preparation failure could not be recorded")

/-- The code and message that a failed revision keeps. -/
def durableFailure (e : ServiceError) : FailureCode × Text 500 :=
  ((safeFailure e).1,(safeFailure e).2.1)

/-- Run content preparation through persisted vectors, but not candidate work. -/
def prepareRevisionContent (enc : Encoding) (identity : PreparationIdentity)
    (key : StorageKey) : Stretch ContentPreparationResult :=
  Stretch.then_ (step (stage (.beginPreparation identity)
    (preparationError "begin_preparation_failed"
      "the preparing revision could not be created"))) fun h =>
  (recordContent enc h key).bind fun x => match x.2 with
    | .ok content => .pure (x.1,.ok content)
    | .error e => (attempt (failPreparation h.revisionId (durableFailure e).1
        (durableFailure e).2)).bind fun saved => match saved with
        | .ok _ => .pure (x.1,.error e)
        | .error _ => .pure (x.1,.error (preparationError "failure_persistence_failed"
            "preparation failed and its durable failure checkpoint could not be recorded"))

/-! ### Protected diagnostics -/

def persistRevisionArtifact (documentId revisionId : Uuid) (kind : String)
    (material : ArtifactMaterial) : Prog Unit := do
  let sequence ← catalog (.artifactSequence revisionId kind)
  let artifact ← files (.writeArtifact documentId revisionId kind sequence material)
  (catalog (.insertArtifact revisionId artifact)).tryCatch fun e => do
    files (.remove artifact.storageKey true)
    .fail e

def persistFormatterExchanges (documentId revisionId : Uuid)
    (exchanges : List ProtectedExchange) : Prog Unit :=
  Program.forEach exchanges fun x =>
    persistRevisionArtifact documentId revisionId "formatter_exchange" (.formatterExchange x)

def persistFailedFormatterExchanges (documentId : Uuid) (exchanges : List ProtectedExchange) :
    Prog Unit :=
  if exchanges.isEmpty then .pure ()
  else do
    let revisionId ← catalog .latestMutableRevision
    persistFormatterExchanges documentId revisionId exchanges

/-! ### Candidate discovery -/

/-- Keep the hits of other documents; one document has one revision and one source. -/
def convert (own : Uuid) (source : HitSource) :
    List SeenDocument → List CandidateHit → Outcome (List SeenDocument × List Candidates.ChunkHit)
  | seen, [] => .ok (seen,[])
  | seen, hit :: hits =>
      if hit.documentId = own then convert own source seen hits
      else do
        let seen ← match seen.find? fun x => x.documentId = hit.documentId with
          | none => pure (seen ++ [⟨hit.documentId,hit.preparedRevisionId,source⟩])
          | some previous => do
              require (previous.preparedRevisionId = hit.preparedRevisionId ∧
                  previous.source = source)
                (consistencyError
                  "candidate document appeared with conflicting revision visibility")
              pure seen
        let (seen,rest) ← convert own source seen hits
        pure (seen,⟨hit.documentId,source,hit.chunkId,hit.score,hit.rank⟩ :: rest)

structure Discovery where
  seen : List SeenDocument
  dense : List (List Candidates.ChunkHit)
  sparse : List (List Candidates.ChunkHit)
deriving DecidableEq

def activeFilter (h : PreparationHandle) : CandidateFilter :=
  ⟨h.collectionKey,true,.active,h.revisionId⟩

def screeningFilter (h : PreparationHandle) : CandidateFilter :=
  ⟨h.collectionKey,false,.screening,h.revisionId⟩

/-- Convert the four answers of one chunk in the order in which the lists are built. -/
def convertAnswers (own : Uuid) (x : Discovery)
    (activeDense screeningDense activeSparse screeningSparse : List ScoredPoint) :
    Outcome Discovery := do
  let (seen,a) ← convert own .active x.seen (rankHits .active activeDense)
  let (seen,b) ← convert own .screening seen (rankHits .screening screeningDense)
  let (seen,c) ← convert own .active seen (rankHits .active activeSparse)
  let (seen,d) ← convert own .screening seen (rankHits .screening screeningSparse)
  pure ⟨seen,x.dense ++ [a ++ b],x.sparse ++ [c ++ d]⟩

/-- The four queries of one chunk, each a call of its own. -/
def queryChunk (screening : Text 255) (h : PreparationHandle) (x : Discovery)
    (chunk : ChunkPoint × SparseVector) : Prog Discovery := do
  let active := chunk.1.activeQdrantCollection
  let activeDense ← points
    (.query active (.dense chunk.1.dense) (activeFilter h) Candidates.denseTopK)
  let screeningDense ← points
    (.query screening (.dense chunk.1.dense) (screeningFilter h) Candidates.denseTopK)
  let activeSparse ← points
    (.query active (.bm25 chunk.2) (activeFilter h) Candidates.bm25TopK)
  let screeningSparse ← points
    (.query screening (.bm25 chunk.2) (screeningFilter h) Candidates.bm25TopK)
  raising (convertAnswers h.documentId x activeDense screeningDense activeSparse screeningSparse)

structure CandidateDiscovery where
  candidate : Candidates.DeterministicCandidate
  preparedRevisionId : Option Uuid
deriving DecidableEq

def CandidateContext.revision? (x : CandidateContext) (id : Uuid) : Option Uuid :=
  (x.revisions.find? fun y => y.1 = id).map (·.2)

def discoverCandidates (s : Settings) (content : ContentPreparationResult) :
    Prog (List CandidateDiscovery) := do
  let h := content.handle
  let queries ← provider (.embedSparseQueries (content.points.map (·.markdown)))
  let queries ← external providerError queries
  Program.require (queries.length = content.points.length) (.value "zip")
  let found ← Program.foldl (queryChunk s.screening h) ⟨[],[],[]⟩ (content.points.zip queries)
  let context ← catalog (.catalogCandidateContext h content.markdownSha256 found.seen)
  let evaluated ← raising (Candidates.evaluateCandidates found.dense found.sparse
    context.filenameIds context.identicalIds context.sources)
  .pure (evaluated.map fun x => ⟨x,context.revision? x.documentId⟩)

def toCandidateSource : HitSource → CandidateSource
  | .active => .active
  | .screening => .screening

def deterministicEvidence : EvidenceInput where
  kind := .deterministic
  modelId := none
  valid := true
  label := some "candidate"
  summary := some "Deterministic preflight rules selected this candidate."
  evidence := []
  failureCode := none

def deterministicCandidateInput (x : CandidateDiscovery) : CandidateInput where
  matchedDocumentId := x.candidate.documentId
  source := toCandidateSource x.candidate.source
  reasons := x.candidate.reasons
  maxCosine := x.candidate.maxCosine
  bm25Score := x.candidate.bm25StrongPlacements
  fusedScore := x.candidate.fusedScore
  matchedChunkPairs := x.candidate.matchedChunkPairs
  evidence := [deterministicEvidence]

/-! ### Advisory review -/

def Settings.modelIdentity (s : Settings) : EvidenceKind → Text 255
  | .verifier => s.verifierIdentity
  | _ => s.classifierIdentity

def failedAdvisory (kind : EvidenceKind) (model : Option (Text 255)) (summary : String)
    (code : FailureCode) : EvidenceInput where
  kind := kind
  modelId := model.map (·.1)
  valid := false
  label := none
  summary := some summary
  evidence := []
  failureCode := some code

def unavailableAdvisory (s : Settings) (kind : EvidenceKind) : EvidenceInput :=
  failedAdvisory kind (some (Settings.modelIdentity s kind))
    "The independent advisory check did not complete." (failureCode "advisory_unavailable")

def incompleteAdvisory (summary : String) (code : FailureCode) : EvidenceInput :=
  failedAdvisory .incomplete none summary code

def publicCitation (sources : List SourceExcerpt) (x : ChunkId × String) : Outcome Citation := do
  let source ← orRaise (sources.find? fun e => e.reference = x.1)
    (executionError "advisory_citation_invalid"
      "Validated advisory evidence lost its chunk correlation." false)
  pure ⟨source.documentId,x.1,source.pageStart,source.pageEnd,x.2⟩

def findingRecord (kind : EvidenceKind) (result : FindingResult)
    (sources : List SourceExcerpt) : Outcome EvidenceInput := do
  match result.finding with
  | none => pure (failedAdvisory kind (some result.modelIdentity)
      "Advisory output did not pass strict validation." (failureCode "advisory_invalid"))
  | some finding => do
      let citations ← finding.evidence.mapM (publicCitation sources)
      pure { kind := kind, modelId := some result.modelIdentity.1, valid := true,
             label := some finding.label, summary := some finding.summary,
             evidence := citations, failureCode := none }

/-- One independent advisory check. -/
def classifyCandidate (s : Settings) (h : PreparationHandle) (candidateId : Uuid)
    (incoming candidate : List SourceExcerpt) (kind : EvidenceKind) : Prog EvidenceInput := do
  let prompt := buildPrompt incoming candidate
  let reply ← provider (.classify kind prompt)
  match reply with
  | .error .classificationUnavailable => .pure (unavailableAdvisory s kind)
  | .error e => .fail (providerError e)
  | .ok reply => do
      let result := findingResult kind (Settings.modelIdentity s kind) prompt reply
      persistRevisionArtifact h.documentId h.revisionId "advisory_exchange"
        (.advisoryExchange candidateId result)
      Program.lift (findingRecord kind result (incoming ++ candidate))

structure Advisory where
  evidence : List (Uuid × List EvidenceInput)
  complete : Bool
  incompleteReasons : List FailureCode

theorem advisory_candidate_budget_code : isFailureCode "advisory_candidate_budget" = true := by decide +kernel

theorem advisory_incomplete_code : isFailureCode "advisory_incomplete" = true := by decide +kernel

def budgetRecords (s : Settings) : List EvidenceInput :=
  [unavailableAdvisory s .classifier,unavailableAdvisory s .verifier,
    incompleteAdvisory "Candidate exceeded the bounded advisory review budget."
      (failureCode "advisory_candidate_budget" advisory_candidate_budget_code)]

/-- Both checks of one candidate, with a final record when one of them is incomplete. -/
def reviewCandidate (s : Settings) (h : PreparationHandle) (x : CandidateDiscovery)
    (candidateId : Uuid) : Prog (List EvidenceInput) := do
  let (incoming,candidate) ← catalog
    (.classificationExcerpts h x.candidate.documentId x.preparedRevisionId)
  let a ← classifyCandidate s h candidateId incoming candidate .classifier
  let b ← classifyCandidate s h candidateId incoming candidate .verifier
  .pure (if a.valid && b.valid then [a,b] else [a,b,
    incompleteAdvisory "One or more independent advisory checks were incomplete."
      (failureCode "advisory_incomplete" advisory_incomplete_code)])

def reviewNext (s : Settings) (h : PreparationHandle) (x : Advisory)
    (item : (CandidateDiscovery × Uuid) × ℕ) : Prog Advisory :=
  if Candidates.maxClassifiedCandidates ≤ item.2 then
    .pure ⟨x.evidence ++ [(item.1.2,budgetRecords s)],false,
      x.incompleteReasons ++
        [failureCode "advisory_candidate_budget" advisory_candidate_budget_code]⟩
  else do
    let records ← reviewCandidate s h item.1.1 item.1.2
    let valid := records.all (·.valid)
    .pure ⟨x.evidence ++ [(item.1.2,records)],x.complete && valid,
      if valid then x.incompleteReasons
      else x.incompleteReasons ++ [failureCode "advisory_incomplete" advisory_incomplete_code]⟩

def classifyCandidates (s : Settings) (h : PreparationHandle)
    (discoveries : List CandidateDiscovery) (candidateIds : List Uuid) : Prog Advisory := do
  Program.require (discoveries.length = candidateIds.length)
    (executionError "candidate_correlation_failed"
      "Persisted candidate identities did not match discovery order." false)
  if discoveries.isEmpty then .pure ⟨[],true,[]⟩
  else do
    Program.require s.advisoryConfigured
      (executionError "provider_not_configured"
        "Advisory classifier providers are not configured." false)
    Program.foldl (reviewNext s h) ⟨[],true,[]⟩ (discoveries.zip candidateIds).zipIdx

/-! ### Preflight -/

def requireQdrant (s : Settings) : Prog Unit :=
  Program.require s.qdrantConfigured
    (executionError "provider_not_configured" "Qdrant is not configured." false)

def writeScreeningPoints (s : Settings) (content : ContentPreparationResult) : Prog Unit := do
  let h := content.handle
  let outbox : OutboxKey := ⟨h.documentId,h.revisionId,.screening,.upsert,s.screening⟩
  requireQdrant s
  catalog (.setPhase .upsertingScreeningPoints)
  catalog (.beginOutbox outbox content.points.length)
  points (.delete s.screening h.documentId)
  verifyDocumentZero s.screening h.documentId
  upsertScreeningPoints s.screening content.points
  verifyPreparedPoints s.screening content.points false .screening
  catalog (.completeOutbox outbox)

def isTerminalRejection (code : FailureCode) : Bool :=
  code.1 ∈ ["extraction_encrypted","extraction_malformed","extraction_empty",
    "extraction_page-budget","extraction_character-budget","extraction_image-only",
    "extraction_text-insufficient","extraction_non-english"]

/-- Candidate work and sealing over prepared content. -/
def sealContent (s : Settings) (content : ContentPreparationResult)
    (exchanges : List ProtectedExchange) : Prog Unit := do
  let h := content.handle
  persistFormatterExchanges h.documentId h.revisionId exchanges
  writeScreeningPoints s content
  catalog (.setPhase .discoveringCandidates)
  let discoveries ← discoverCandidates s content
  let ids ← stage (.recordPreflightCandidates h (discoveries.map deterministicCandidateInput))
    (preparationError "record_candidates_failed" "preflight candidates could not be recorded")
  catalog (.setPhase .classifyingCandidates)
  let advisory ← classifyCandidates s h discoveries ids
  stage (.appendAdvisoryEvidence h advisory.evidence)
    (preparationError "record_advisory_failed" "advisory evidence could not be recorded")
  catalog (.setPhase .sealingRevision)
  let prepared ← stage (.sealPreparedRevision h
      ⟨true,advisory.complete,discoveries.isEmpty && advisory.complete,
        advisory.incompleteReasons⟩)
    (preparationError "seal_preparation_failed" "prepared revision could not be sealed")
  catalog (.finishPreflight prepared)

/-- Record the failure of an unsealed revision and raise it again. -/
def failSealing (revisionId : Uuid) (e : ServiceError) : Prog Unit := do
  let saved ← attempt (failPreparation revisionId (durableFailure e).1 (durableFailure e).2)
  match saved with
  | .ok _ => .fail e
  | .error (.preparation code message) =>
      if code.1 = "revision_state_conflict" then .fail e else .fail (.preparation code message)
  | .error other => .fail other

def runPreflight (s : Settings) (enc : Encoding) (documentId : Uuid) : Prog Unit := do
  let snapshot ← catalog .preflightSource
  let present ← files (.isFile snapshot.storageKey)
  Program.require present
    (executionError "source_missing" "The canonical source object is missing." false)
  let collection ← Program.lift (orRaise (s.enabledCollection? snapshot.collectionKey)
    (executionError "collection_not_configured"
      "The document collection is not enabled in target configuration." false))
  Program.require s.preparationConfigured
    (executionError "provider_not_configured"
      "Preparation providers are not fully configured." false)
  catalog (.setPhase .extracting)
  let (exchanges,prepared) ← prepareRevisionContent enc
    ⟨collection.identity,collection.formatterTokenizerClass⟩ snapshot.storageKey
  match prepared with
  | .error e => do
      persistFailedFormatterExchanges documentId exchanges
      match e with
      | .preparation code _ =>
          if isTerminalRejection code then
            catalog (.acceptRejection code collection.qdrantCollectionName)
          else .fail e
      | e => .fail e
  | .ok content => do
      catalog (.bindRevision content.handle.revisionId)
      (sealContent s content exchanges).tryCatch (failSealing content.handle.revisionId)

/-! ### Verified deletion -/

def deletionOutbox (documentId : Uuid) (revisionId : Option Uuid) (target : IndexTarget)
    (collection : Text 255) : Option OutboxKey :=
  revisionId.map fun r => ⟨documentId,r,target,.delete,collection⟩

def onOutbox (outbox : Option OutboxKey) (f : OutboxKey → Prog Unit) : Prog Unit :=
  match outbox with
  | none => .pure ()
  | some k => f k

/-- Delete the points of one target, prove zero and checkpoint the proof. -/
def deletePoints (documentId : Uuid) (revisionId : Option Uuid) (target : IndexTarget)
    (collection : Text 255) (deleting verifying : DeletionPhase) : Prog Unit := do
  let outbox := deletionOutbox documentId revisionId target collection
  catalog (.setDeletionPhase documentId deleting)
  onOutbox outbox fun k => catalog (.beginOutbox k 0)
  points (.delete collection documentId)
  onOutbox outbox fun k => catalog (.completeOutbox k)
  catalog (.setDeletionPhase documentId verifying)
  verifyDocumentZero collection documentId
  catalog (.recordZeroVerification documentId target)

def contentMissing (e : ServiceError) : ServiceError :=
  if e = .fileNotFound then executionError "content_missing_before_purge"
    "Expected protected content was absent before the first purge attempt." false
  else e

def purgeDocumentContent (documentId : Uuid) (allowMissing : Bool) : Prog Unit := do
  let b ← catalog (.purgeBinding documentId)
  (Program.forEach (b.storageKey :: b.artifactKeys) fun key =>
    files (.remove key allowMissing)).tryCatch fun e => .fail (contentMissing e)
  files (.removeArtifacts documentId)
  catalog (.purgeContentRows documentId b)

/-- `if not flag: …`. -/
def unless_ (flag : Bool) (p : Prog Unit) : Prog Unit := if flag then .pure () else p

def runDeletionPhases (s : Settings) (documentId : Uuid) : Prog Unit := do
  let (revisionId,active,screening) ← catalog (.deletionCheckpoint documentId)
  catalog (.countDeletionAttempt documentId)
  requireQdrant s
  let flags ← catalog (.deletionFlags documentId)
  unless_ flags.activeVerified
    (deletePoints documentId revisionId .active active .deleteActivePoints .verifyActiveZero)
  unless_ flags.screeningVerified
    (deletePoints documentId revisionId .screening screening .deleteScreeningPoints
      .verifyScreeningZero)
  unless_ flags.storagePurged (do
    catalog (.setDeletionPhase documentId .purgeStorage)
    purgeDocumentContent documentId flags.purgeWasCheckpointed)
  unless_ flags.tombstoned (do
    catalog (.setDeletionPhase documentId .commitTombstone)
    catalog (.commitDeletion documentId))

def runDelete (s : Settings) (documentId : Uuid) : Prog Unit := do
  let snapshot ← catalog .operationSnapshot
  Program.require (snapshot.operationType = .delete &&
      snapshot.replacementTargetDocumentId = none)
    (executionError "deletion_binding_invalid"
      "Deletion work lost its exact operation binding." false deletion_binding_invalid_code)
  runDeletionPhases s documentId

/-! ### Publication -/

def pointsBound (documentId revisionId : Uuid) (active : Text 255) (expected : ℕ)
    (ps : List ChunkPoint) : Bool :=
  ps.length = expected && ps.all fun p => p.documentId = documentId &&
    p.preparedRevisionId = revisionId && p.activeQdrantCollection = active

/-- Stage, verify and open the complete revision, and checkpoint it. -/
def activatePoints (documentId revisionId : Uuid) (active : Text 255)
    (ps : List ChunkPoint) : Prog Unit := do
  let outbox : OutboxKey := ⟨documentId,revisionId,.active,.publish,active⟩
  catalog (.setPhase .upsertActivePoints)
  catalog (.beginOutbox outbox ps.length)
  stageActivePoints active ps
  catalog (.setPhase .verifyActivePoints)
  verifyPreparedPoints active ps false .publishing
  points (.setPayload active documentId revisionId)
  verifyPreparedPoints active ps true .active
  catalog (.completeOutbox outbox)
  catalog (.markUpserted revisionId)

def removeScreeningPoints (s : Settings) (documentId revisionId : Uuid) : Prog Unit := do
  let outbox : OutboxKey := ⟨documentId,revisionId,.screening,.delete,s.screening⟩
  catalog (.setPhase .removeScreeningPoints)
  catalog (.beginOutbox outbox 0)
  points (.delete s.screening documentId)
  catalog (.setPhase .verifyScreeningRemoval)
  verifyDocumentZero s.screening documentId
  catalog (.completeOutbox outbox)

def publishRevision (s : Settings) (documentId revisionId : Uuid) : Prog Unit := do
  let (active,expected) ← catalog (.publicationBinding revisionId)
  let ps ← stage (.reconstructChunkPoints revisionId true)
    (preparationError "reconstruct_points_failed"
      "prepared publication points could not be reconstructed")
  Program.require (pointsBound documentId revisionId active expected ps)
    (executionError "publication_manifest_invalid"
      "Reconstructed publication points did not match the sealed manifest." false)
  requireQdrant s
  activatePoints documentId revisionId active ps
  removeScreeningPoints s documentId revisionId
  catalog (.finishPublication revisionId expected)

def publishLost : ServiceError :=
  executionError "publication_binding_invalid"
    "Publication work lost its exact operation binding." false publication_binding_invalid_code

def runPublish (s : Settings) (documentId : Uuid) : Prog Unit := do
  let snapshot ← catalog .operationSnapshot
  let invalid := publishLost
  Program.require (snapshot.operationType = .publish) invalid
  let revisionId ← Program.lift (orRaise snapshot.preparedRevisionId invalid)
  match snapshot.replacementTargetDocumentId with
  | none => .pure ()
  | some target => runDeletionPhases s target
  publishRevision s documentId revisionId

/-! ### Dispatch -/

def dispatch (s : Settings) (enc : Encoding) (claimed : ClaimedOperation) : Prog Unit :=
  match claimed.operationType with
  | .preflight => runPreflight s enc claimed.documentId
  | .publish => runPublish s claimed.documentId
  | .delete => runDelete s claimed.documentId

/-- `_execute`: a lost lease is only logged, any other exception fails the operation. -/
def execute (s : Settings) (enc : Encoding) (claimed : ClaimedOperation) : Prog Unit :=
  ((dispatch s enc claimed).tryCatch fun e =>
    if e = .leaseLost then .pure () else catalog (.failOperation e)).finally_ (release claimed)

/-- One turn of the slot loop over a claimed operation. -/
def slotTurn (s : Settings) (enc : Encoding) (claimed : ClaimedOperation) : Prog Unit :=
  (execute s enc claimed).tryCatch fun _ => release claimed

end Worker
end PdfBridge
