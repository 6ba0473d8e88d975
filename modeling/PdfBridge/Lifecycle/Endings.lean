import PdfBridge.Lifecycle.Slots

/-! How an execution ends: a body returns only after an answer that shows that its operation is no
longer run by the worker. -/
namespace PdfBridge
namespace Lifecycle
open Worker Preparation Program

variable {s : Settings} {enc : Encoding} {x : ClaimedOperation} {α β : Type}

/-! ### Outcomes without a lost lease -/

/-- The computation does not raise a lost lease. -/
def Keeping (y : Outcome α) : Prop := y ≠ .error .leaseLost

theorem Keeping.pure (a : α) : Keeping (Pure.pure a : Outcome α) := by
  intro h
  cases h

theorem Keeping.require {c : Prop} [Decidable c] {e : ServiceError} (he : e ≠ .leaseLost) :
    Keeping (PdfBridge.require c e) := by
  unfold PdfBridge.require
  split
  · intro h
    cases h
  · intro h
    cases h
    exact he rfl

theorem Keeping.orRaise {o : Option α} {e : ServiceError} (he : e ≠ .leaseLost) :
    Keeping (PdfBridge.orRaise o e) := by
  cases o with
  | some a =>
    intro h
    cases h
  | none =>
    intro h
    cases h
    exact he rfl

theorem Keeping.bind {y : Outcome α} {f : α → Outcome β} (h : Keeping y)
    (hf : ∀ a, Keeping (f a)) : Keeping (y >>= f) := by
  cases y with
  | ok a => exact hf a
  | error e =>
    intro he
    cases he
    exact h rfl

theorem Keeping.mapM {f : α → Outcome β} (hf : ∀ a, Keeping (f a)) (as : List α) :
    Keeping (as.mapM f) := by
  induction as with
  | nil =>
    rw [List.mapM_nil]
    exact Keeping.pure _
  | cons a as ih =>
    rw [List.mapM_cons]
    exact (hf a).bind fun _ => ih.bind fun _ => Keeping.pure _

/-! ### What an answer shows -/

/-- The answer shows that the worker does not run the operation: it has ended, its lease is lost, or
the document of a deletion is already tombstoned. -/
def Shows (x : ClaimedOperation) : (r : Request) → Except ServiceError r.Response → Prop
  | .catalog (.deletionFlags id), .ok flags =>
      x.operationType = .delete ∧ id = x.documentId ∧ flags.tombstoned = true
  | .catalog r, .ok _ => closes x r true
  | .catalog _, .error e => e = .leaseLost
  | _, _ => False

/-- Only the catalog reports a lost lease, and the record of a failure succeeds. -/
def credible : (r : Request) → Except ServiceError r.Response → Prop
  | .catalog (.failOperation _), .error _ => False
  | .catalog _, _ => True
  | .raise e, .error e' => e' = e
  | .release _, .error _ => False
  | _, .error e => e ≠ .leaseLost
  | _, .ok _ => True

/-- The protocol that only follows whether an answer has shown the end of the operation. -/
def endings (x : ClaimedOperation) : Program.Protocol signature ServiceError Prop where
  answers := credible
  permits _ _ := True
  next r shown a := shown ∨ Shows x r a

variable {V W : α → Prop} {p : Prog α} {S : Prop}

/-- A program raises a lost lease only after an answer that shows it, and until then its value
satisfies `V`. -/
def Honest (x : ClaimedOperation) (V : α → Prop) (p : Prog α) : Prop :=
  ∀ S, Follows (endings x) (fun y S => ¬ S → y ≠ .error .leaseLost ∧ ∀ a, y = .ok a → V a) p S

/-- What has been shown stays shown. -/
theorem follows_shown (hS : S) : Follows (endings x) (fun _ S => S) p S := by
  induction p generalizing S with
  | pure a => exact hS
  | fail e => exact hS
  | call r k ih => exact ⟨trivial,fun a _ => ih a (Or.inl hS)⟩

theorem Honest.pure {a : α} (hv : V a) : Honest x V (.pure a : Prog α) := by
  intro S
  show ¬ S → _ ∧ _
  intro _
  constructor
  · rintro ⟨⟩
  · rintro b ⟨⟩
    exact hv

theorem Honest.fail {e : ServiceError} (he : e ≠ .leaseLost) :
    Honest x V (.fail e : Prog α) := by
  intro S
  show ¬ S → _ ∧ _
  intro _
  constructor
  · rintro ⟨⟩
    exact he rfl
  · rintro a ⟨⟩

theorem Honest.mono {W : α → Prop} (h : Honest x V p) (hv : ∀ a, V a → W a) : Honest x W p :=
  fun S => (h S).mono fun _ _ hy hS => ⟨(hy hS).1,fun a ha => hv a ((hy hS).2 a ha)⟩

theorem Honest.bind {W : β → Prop} {f : α → Prog β} (h : Honest x V p)
    (hf : ∀ a, V a → Honest x W (f a)) : Honest x W (p.bind f) := by
  refine fun S => (h S).bind (fun a S ha => ?_) fun e S he hS => ⟨?_,fun _ hc => nomatch hc⟩
  · by_cases hS : S
    · exact (follows_shown hS).mono fun _ _ hS' hn => absurd hS' hn
    · exact hf a ((ha hS).2 a rfl) S
  · rintro ⟨⟩
    exact (he hS).1 rfl

theorem Honest.tryCatch {f : ServiceError → Prog α} (h : Honest x V p)
    (hf : ∀ e, e ≠ .leaseLost → Honest x V (f e)) : Honest x V (p.tryCatch f) := by
  refine fun S => (h S).tryCatch (fun _ _ hy => hy) fun e S he => ?_
  by_cases hS : S
  · exact (follows_shown hS).mono fun _ _ hS' hn => absurd hS' hn
  · refine hf e ?_ S
    rintro rfl
    exact (he hS).1 rfl

theorem Honest.require {c : Bool} {e : ServiceError} (he : e ≠ .leaseLost) :
    Honest x (fun _ => True) (Program.require c e : Prog Unit) := by
  unfold Program.require
  split
  · exact Honest.pure trivial
  · exact Honest.fail he

theorem Honest.lift {y : Outcome α} (hy : Keeping y) :
    Honest x (fun _ => True) (Program.lift y : Prog α) := by
  cases y with
  | ok a => exact Honest.pure trivial
  | error e => exact Honest.fail fun he => hy (congrArg _ he)

theorem Honest.foldl {γ : Type} {f : β → γ → Prog β} (h : ∀ b c, Honest x (fun _ => True) (f b c))
    (b : β) (cs : List γ) : Honest x (fun _ => True) (Program.foldl f b cs) := by
  induction cs generalizing b with
  | nil => exact Honest.pure trivial
  | cons c cs ih => exact (h b c).bind fun b _ => ih b

theorem Honest.forEach {γ : Type} {f : γ → Prog Unit} (h : ∀ c, Honest x (fun _ => True) (f c))
    (cs : List γ) : Honest x (fun _ => True) (Program.forEach cs f) :=
  Honest.foldl (fun _ c => h c) () cs

/-! ### Single requests -/

/-- A catalog request whose answers satisfy `V` unless they show the end of the operation. -/
theorem honest_catalog {r : CatalogRequest} {V : r.Response → Prop}
    (hv : ∀ a, ¬ Shows x (.catalog r) (.ok a) → V a) : Honest x V (catalog r) := by
  refine fun S => Follows.request trivial fun y _ hS => ?_
  rw [show (endings x).next (.catalog r) S y = (S ∨ Shows x (.catalog r) y) from rfl, not_or] at hS
  constructor
  · rintro rfl
    refine hS.2 ?_
    cases r <;> rfl
  · rintro a rfl
    exact hv a hS.2

theorem honest_any {r : CatalogRequest} : Honest x (fun _ => True) (catalog r) :=
  honest_catalog fun _ _ => trivial

/-- A request outside the catalog. -/
theorem honest_call {r : Request} (hr : ∀ a, credible r (.error a) → a ≠ .leaseLost) :
    Honest x (fun _ => True) (call r) := by
  refine fun S => Follows.request trivial fun y hy _ => ⟨?_,fun _ _ => trivial⟩
  rintro rfl
  exact hr _ hy rfl

theorem honest_points (r : PointRequest) : Honest x (fun _ => True) (points r) :=
  honest_call fun _ h => h

theorem honest_files (r : FileRequest) : Honest x (fun _ => True) (files r) :=
  honest_call fun _ h => h

theorem honest_provider (r : ProviderRequest) : Honest x (fun _ => True) (provider r) :=
  honest_call fun _ h => h

theorem honest_raising {y : Outcome α} (hy : Keeping y) :
    Honest x (fun _ => True) (raising y) := by
  cases y with
  | ok a => exact Honest.pure trivial
  | error e =>
    refine (honest_call (r := .raise e) ?_).bind fun v _ => nomatch v
    rintro a (rfl : a = e) rfl
    exact hy rfl

theorem honest_stage {r : CatalogRequest} {e : ServiceError} (he : e ≠ .leaseLost) :
    Honest x (fun _ => True) (stage r e) := by
  refine honest_any.tryCatch fun e' he' => Honest.fail ?_
  split
  · exact he
  · exact he'

theorem honest_attempt (h : Honest x (fun _ => True) p) :
    Honest x Keeping (attempt p) := by
  refine Honest.tryCatch (h.bind fun a _ => Honest.pure (Keeping.pure a)) fun e he => ?_
  refine Honest.pure ?_
  rintro ⟨⟩
  exact he rfl

/-! ### Pure computations -/

theorem keeping_preparation {c m : String} {hc hm} : preparationError c m hc hm ≠ .leaseLost := by
  rintro ⟨⟩

theorem externalError_ne (e : ProviderFailure) : externalError e ≠ .leaseLost := by
  cases e <;> rintro ⟨⟩

theorem bundleError_ne (e : ProviderFailure) : bundleError e ≠ .leaseLost := by
  cases e <;> rintro ⟨⟩

theorem providerError_ne (e : ProviderFailure) : providerError e ≠ .leaseLost := by
  cases e <;> rintro ⟨⟩

theorem keeping_validatePoints (ps : List ChunkPoint) : Keeping (validatePoints ps) := by
  induction ps with
  | nil => exact Keeping.pure _
  | cons p ps ih =>
    refine Keeping.bind ?_ fun _ => ih
    unfold validatePoint
    refine Keeping.bind (Keeping.require ?_) fun _ => Keeping.bind (Keeping.require ?_) fun _ =>
      Keeping.require ?_ <;> rintro ⟨⟩

theorem keeping_pointBatch (v : Visibility) (message : String) (ps : List ChunkPoint) :
    Keeping (pointBatch v message ps) := by
  unfold pointBatch
  refine (Keeping.require ?_).bind fun _ => (keeping_validatePoints ps).bind fun _ =>
    Keeping.pure _
  rintro ⟨⟩

theorem keeping_validateBatch (ps : List ChunkPoint) : Keeping (validateBatch ps) := by
  unfold validateBatch
  refine (Keeping.orRaise ?_).bind fun _ => (Keeping.require ?_).bind fun _ =>
    (keeping_validatePoints ps).bind fun _ => (Keeping.require ?_).bind fun _ =>
    Keeping.pure _ <;> rintro ⟨⟩

theorem keeping_checkRecords (ps : List ChunkPoint) (published : Bool) (v : Visibility)
    (records : List Point) : Keeping (checkRecords ps published v records) := by
  unfold checkRecords
  refine (Keeping.require ?_).bind fun _ => (Keeping.require ?_).bind fun _ =>
    Keeping.require ?_ <;> rintro ⟨⟩

theorem keeping_prepareVectors (h : PreparationHandle) (i : ℕ)
    (rows : List (MarkdownChunk × List ℚ × SparseVector)) :
    Keeping (prepareVectors enc h i rows) := by
  induction rows generalizing i with
  | nil => exact Keeping.pure _
  | cons row rows ih =>
    obtain ⟨c,dense,sparse⟩ := row
    have hvector : Keeping (prepareVector enc h i c dense sparse) := by
      unfold prepareVector
      refine Keeping.bind (Keeping.require keeping_preparation) fun _ => ?_
      refine Keeping.bind (y := denseVectorSha256 enc dense) ?_ fun _ =>
        Keeping.bind (y := sparseVectorSha256 enc sparse) ?_ fun _ => Keeping.pure _
      · exact Keeping.bind (Keeping.require keeping_preparation) fun _ =>
          Keeping.bind (Keeping.require keeping_preparation) fun _ => Keeping.pure _
      · exact Keeping.bind (Keeping.require keeping_preparation) fun _ => Keeping.pure _
    exact hvector.bind fun _ => (ih (i + 1)).bind fun _ => Keeping.pure _

theorem keeping_buildChunkVectorBundle (h : PreparationHandle) (pages : List PreparedPage)
    (chunks : List MarkdownChunk) (dense : List (List ℚ)) (sparse : List SparseVector) :
    Keeping (buildChunkVectorBundle enc h pages chunks dense sparse) := by
  unfold buildChunkVectorBundle
  exact (Keeping.require keeping_preparation).bind fun _ =>
    (keeping_prepareVectors h 0 _).bind fun _ => Keeping.pure _

theorem keeping_convert (own : Uuid) (source : HitSource) (seen : List SeenDocument)
    (hits : List CandidateHit) : Keeping (convert own source seen hits) := by
  induction hits generalizing seen with
  | nil => exact Keeping.pure _
  | cons hit hits ih =>
    unfold convert
    split
    · exact ih seen
    · have hrest : ∀ seen, Keeping (convert own source seen hits >>= fun y =>
          pure (y.1,⟨hit.documentId,source,hit.chunkId,hit.score,hit.rank⟩ :: y.2)) :=
        fun seen => (ih seen).bind fun _ => Keeping.pure _
      split
      · exact hrest _
      · refine (Keeping.require ?_).bind fun _ => hrest _
        rintro ⟨⟩

theorem keeping_convertAnswers (own : Uuid) (y : Discovery) (a b c d : List ScoredPoint) :
    Keeping (convertAnswers own y a b c d) := by
  unfold convertAnswers
  exact (keeping_convert own _ _ _).bind fun _ => (keeping_convert own _ _ _).bind fun _ =>
    (keeping_convert own _ _ _).bind fun _ => (keeping_convert own _ _ _).bind fun _ =>
    Keeping.pure _

theorem keeping_evaluateCandidates (dense bm25 : List (List Candidates.ChunkHit))
    (filenames identical : List Uuid) (sources : Candidates.Sources) :
    Keeping (Candidates.evaluateCandidates dense bm25 filenames identical sources) := by
  have hchecks : ∀ hits, Keeping (Candidates.checkHits sources hits) := by
    intro hits
    induction hits with
    | nil => exact Keeping.pure _
    | cons hit hits ih =>
      refine (Keeping.require ?_).bind fun _ => (Keeping.require ?_).bind fun _ => ih <;>
        rintro ⟨⟩
  unfold Candidates.evaluateCandidates
  refine (hchecks _).bind fun _ => (Keeping.require ?_).bind fun _ => Keeping.pure _
  rintro ⟨⟩

theorem keeping_findingRecord (kind : EvidenceKind) (result : FindingResult)
    (sources : List SourceExcerpt) : Keeping (findingRecord kind result sources) := by
  unfold findingRecord
  split
  · exact Keeping.pure _
  · refine (Keeping.mapM (fun y => ?_) _).bind fun _ => Keeping.pure _
    unfold publicCitation
    refine (Keeping.orRaise ?_).bind fun _ => Keeping.pure _
    rintro ⟨⟩

/-! ### Preparation -/

theorem honest_external {toError : ProviderFailure → ServiceError}
    (he : ∀ e, toError e ≠ .leaseLost) (y : Except ProviderFailure α) :
    Honest x (fun _ => True) (external toError y) := by
  cases y with
  | ok a => exact Honest.pure trivial
  | error e => exact Honest.fail (he e)

/-- A stretch whose outcome is never a lost lease that it has not been shown. -/
def HonestStretch (x : ClaimedOperation) (p : Stretch α) : Prop :=
  Honest x (fun z => Keeping z.2) p

theorem HonestStretch.then_ {p : Stretch α} {f : α → Stretch β} (h : HonestStretch x p)
    (hf : ∀ a, HonestStretch x (f a)) : HonestStretch x (Stretch.then_ p f) := by
  refine Honest.bind h fun z hz => ?_
  obtain ⟨exchanges,y⟩ := z
  cases y with
  | error e => exact Honest.pure fun he => hz (congrArg _ (Except.error.inj he))
  | ok a => exact (hf a).bind fun z hz => Honest.pure hz

theorem honest_step (h : Honest x (fun _ => True) p) : HonestStretch x (step p) :=
  (honest_attempt h).bind fun _ hy => Honest.pure hy

theorem honest_checkpoint {phase : OperationPhase} {next : Stretch α}
    (h : HonestStretch x next) : HonestStretch x (checkpoint phase next) :=
  honest_any.bind fun _ _ => h

theorem honest_captured {p : Prog (Captured α)} (h : Honest x (fun _ => True) p) :
    HonestStretch x (captured p) := by
  refine h.bind fun z _ => Honest.pure ?_
  obtain ⟨exchanges,result⟩ := z
  cases result with
  | ok a => exact Keeping.pure a
  | error e => exact fun he => externalError_ne e (Except.error.inj he)

theorem honest_formatMarkdownDocument (y : ExtractedDocument) :
    HonestStretch x (formatMarkdownDocument y) :=
  honest_checkpoint <|
    (honest_step ((honest_provider _).bind fun _ _ => honest_external externalError_ne _)).then_
    fun _ => honest_checkpoint <| (honest_captured (honest_provider _)).then_
    fun _ => honest_checkpoint <| honest_captured (honest_provider _)

theorem honest_buildBundle (h : PreparationHandle) (pages : List PreparedPage) :
    HonestStretch x (buildBundle enc h pages) :=
  honest_checkpoint <|
    (honest_step ((honest_provider _).bind fun _ _ => honest_external bundleError_ne _)).then_
    fun _ => honest_checkpoint <|
    (honest_step ((honest_provider _).bind fun _ _ => honest_external bundleError_ne _)).then_
    fun _ => honest_checkpoint <| honest_step <| (honest_provider _).bind fun _ _ =>
      (honest_external bundleError_ne _).bind fun _ _ =>
      Honest.lift (keeping_buildChunkVectorBundle h pages _ _ _)

theorem honest_recordContent (h : PreparationHandle) (key : StorageKey) :
    HonestStretch x (recordContent enc h key) := by
  refine (honest_step ((honest_provider _).bind fun _ _ =>
    honest_external externalError_ne _)).then_ fun y => honest_checkpoint ?_
  refine (honest_step ((honest_provider _).bind fun _ _ =>
    (honest_external externalError_ne _).bind fun _ _ =>
    honest_stage keeping_preparation)).then_ fun _ => ?_
  refine (honest_formatMarkdownDocument y).then_ fun _ => ?_
  refine (honest_step ((honest_stage keeping_preparation).bind fun _ _ =>
    (honest_stage keeping_preparation).bind fun _ _ => Honest.pure trivial)).then_ fun _ => ?_
  refine (honest_buildBundle h _).then_ fun _ => ?_
  exact honest_step ((honest_stage keeping_preparation).bind fun _ _ =>
    (honest_stage keeping_preparation).bind fun _ _ => Honest.pure trivial)

theorem honest_prepareRevisionContent (identity : PreparationIdentity) (key : StorageKey) :
    HonestStretch x (prepareRevisionContent enc identity key) := by
  refine (honest_step (honest_stage keeping_preparation)).then_ fun h => ?_
  refine Honest.bind (honest_recordContent h key) fun z hz => ?_
  obtain ⟨exchanges,y⟩ := z
  cases y with
  | ok content => exact Honest.pure (Keeping.pure _)
  | error e =>
    refine (honest_attempt (honest_stage keeping_preparation)).bind fun saved _ => ?_
    cases saved with
    | ok a => exact Honest.pure hz
    | error e' => exact Honest.pure fun he => keeping_preparation (Except.error.inj he)

/-! ### Preflight -/

theorem honest_persistRevisionArtifact (documentId revisionId : Uuid) (kind : String)
    (material : ArtifactMaterial) :
    Honest x (fun _ => True) (persistRevisionArtifact documentId revisionId kind material) :=
  honest_any.bind fun _ _ => (honest_files _).bind fun _ _ => honest_any.tryCatch fun _ he =>
    (honest_files _).bind fun _ _ => Honest.fail he

theorem honest_persistFormatterExchanges (documentId revisionId : Uuid)
    (exchanges : List ProtectedExchange) :
    Honest x (fun _ => True) (persistFormatterExchanges documentId revisionId exchanges) :=
  Honest.forEach (fun _ => honest_persistRevisionArtifact documentId revisionId _ _) exchanges

theorem honest_persistFailedFormatterExchanges (documentId : Uuid)
    (exchanges : List ProtectedExchange) :
    Honest x (fun _ => True) (persistFailedFormatterExchanges documentId exchanges) := by
  unfold persistFailedFormatterExchanges
  split
  · exact Honest.pure trivial
  · exact honest_any.bind fun _ _ => honest_persistFormatterExchanges _ _ _

theorem honest_upsertPoints (collection : Text 255) {batch : Outcome (List Point)}
    (h : Keeping batch) : Honest x (fun _ => True) (upsertPoints collection batch) :=
  (Honest.lift h).bind fun _ _ => honest_points _

theorem honest_verifyPreparedPoints (collection : Text 255) (ps : List ChunkPoint)
    (published : Bool) (v : Visibility) :
    Honest x (fun _ => True) (verifyPreparedPoints collection ps published v) := by
  refine (Honest.lift (keeping_validateBatch ps)).bind fun _ _ =>
    (honest_points _).bind fun _ _ => (Honest.require ?_).bind fun _ _ =>
    (honest_points _).bind fun _ _ => Honest.lift (keeping_checkRecords _ _ _ _)
  rintro ⟨⟩

theorem honest_verifyDocumentZero (collection : Text 255) (documentId : Uuid) :
    Honest x (fun _ => True) (verifyDocumentZero collection documentId) := by
  refine (honest_points _).bind fun _ _ => Honest.require ?_
  rintro ⟨⟩

theorem honest_requireQdrant : Honest x (fun _ => True) (requireQdrant s) := by
  refine Honest.require ?_
  rintro ⟨⟩

theorem honest_writeScreeningPoints (content : ContentPreparationResult) :
    Honest x (fun _ => True) (writeScreeningPoints s content) :=
  honest_requireQdrant.bind fun _ _ => honest_any.bind fun _ _ => honest_any.bind fun _ _ =>
    (honest_points _).bind fun _ _ => (honest_verifyDocumentZero _ _).bind fun _ _ =>
    (honest_upsertPoints _ (keeping_pointBatch _ _ _)).bind fun _ _ =>
    (honest_verifyPreparedPoints _ _ _ _).bind fun _ _ => honest_any

theorem honest_queryChunk (screening : Text 255) (h : PreparationHandle) (y : Discovery)
    (chunk : ChunkPoint × SparseVector) :
    Honest x (fun _ => True) (queryChunk screening h y chunk) :=
  (honest_points _).bind fun _ _ => (honest_points _).bind fun _ _ =>
    (honest_points _).bind fun _ _ => (honest_points _).bind fun _ _ =>
    honest_raising (keeping_convertAnswers _ _ _ _ _ _)

theorem honest_discoverCandidates (content : ContentPreparationResult) :
    Honest x (fun _ => True) (discoverCandidates s content) := by
  refine (honest_provider _).bind fun _ _ => (honest_external providerError_ne _).bind fun _ _ =>
    (Honest.require ?_).bind fun _ _ =>
    (Honest.foldl (fun _ _ => honest_queryChunk _ _ _ _) _ _).bind fun _ _ =>
    honest_any.bind fun _ _ => (honest_raising (keeping_evaluateCandidates _ _ _ _ _)).bind
    fun _ _ => Honest.pure trivial
  rintro ⟨⟩

theorem honest_classifyCandidate (h : PreparationHandle) (candidateId : Uuid)
    (incoming candidate : List SourceExcerpt) (kind : EvidenceKind) :
    Honest x (fun _ => True) (classifyCandidate s h candidateId incoming candidate kind) := by
  refine (honest_provider _).bind fun reply _ => ?_
  split
  · exact Honest.pure trivial
  · exact Honest.fail (providerError_ne _)
  · exact (honest_persistRevisionArtifact _ _ _ _).bind fun _ _ =>
      Honest.lift (keeping_findingRecord _ _ _)

theorem honest_reviewNext (h : PreparationHandle) (y : Advisory)
    (item : (CandidateDiscovery × Uuid) × ℕ) :
    Honest x (fun _ => True) (reviewNext s h y item) := by
  unfold reviewNext
  split
  · exact Honest.pure trivial
  · refine Honest.bind (V := fun _ => True) ?_ fun _ _ => Honest.pure trivial
    exact honest_any.bind fun _ _ => (honest_classifyCandidate _ _ _ _ _).bind fun _ _ =>
      (honest_classifyCandidate _ _ _ _ _).bind fun _ _ => Honest.pure trivial

theorem honest_classifyCandidates (h : PreparationHandle)
    (discoveries : List CandidateDiscovery) (ids : List Uuid) :
    Honest x (fun _ => True) (classifyCandidates s h discoveries ids) := by
  refine (Honest.require ?_).bind fun _ _ => ?_
  · rintro ⟨⟩
  · split
    · exact Honest.pure trivial
    · refine (Honest.require ?_).bind fun _ _ => Honest.foldl (fun _ _ => honest_reviewNext _ _ _) _ _
      rintro ⟨⟩

/-- A prepared document is sealed by a request that ends the operation. -/
theorem honest_sealContent (content : ContentPreparationResult)
    (exchanges : List ProtectedExchange) :
    Honest x (fun _ => False) (sealContent s content exchanges) :=
  (honest_persistFormatterExchanges _ _ _).bind fun _ _ =>
    (honest_writeScreeningPoints content).bind fun _ _ => honest_any.bind fun _ _ =>
    (honest_discoverCandidates content).bind fun _ _ =>
    (honest_stage keeping_preparation).bind fun _ _ => honest_any.bind fun _ _ =>
    (honest_classifyCandidates _ _ _).bind fun _ _ =>
    (honest_stage keeping_preparation).bind fun _ _ => honest_any.bind fun _ _ =>
    (honest_stage keeping_preparation).bind fun _ _ =>
    honest_catalog fun _ hn => hn rfl

theorem honest_failSealing (revisionId : Uuid) {e : ServiceError} (he : e ≠ .leaseLost) :
    Honest x (fun _ => False) (failSealing revisionId e) := by
  refine (honest_attempt (honest_stage keeping_preparation)).bind fun saved hsaved => ?_
  split
  · exact Honest.fail he
  · split
    · exact Honest.fail he
    · exact Honest.fail (by rintro ⟨⟩)
  · exact Honest.fail fun h => hsaved (congrArg _ h)

theorem honest_runPreflight (documentId : Uuid) :
    Honest x (fun _ => False) (runPreflight s enc documentId) := by
  refine honest_any.bind fun snapshot _ => (honest_files _).bind fun _ _ =>
    (Honest.require ?_).bind fun _ _ => (Honest.lift (Keeping.orRaise ?_)).bind fun collection _ =>
    (Honest.require ?_).bind fun _ _ => honest_any.bind fun _ _ => ?_
  · rintro ⟨⟩
  · rintro ⟨⟩
  · rintro ⟨⟩
  · refine Honest.bind (honest_prepareRevisionContent _ _) fun z hz => ?_
    obtain ⟨exchanges,y⟩ := z
    cases y with
    | ok content =>
      exact honest_any.bind fun _ _ =>
        (honest_sealContent content exchanges).tryCatch fun _ he => honest_failSealing _ he
    | error e =>
      have he : e ≠ .leaseLost := fun h => hz (congrArg _ h)
      refine (honest_persistFailedFormatterExchanges _ _).bind fun _ _ => ?_
      split
      · split
        · exact honest_catalog fun _ hn => hn rfl
        · exact Honest.fail he
      · exact Honest.fail he

/-! ### Deletion and publication -/

theorem honest_onOutbox {outbox : Option OutboxKey} {f : OutboxKey → Prog Unit}
    (h : ∀ k, Honest x (fun _ => True) (f k)) : Honest x (fun _ => True) (onOutbox outbox f) := by
  cases outbox with
  | none => exact Honest.pure trivial
  | some k => exact h k

theorem honest_deletePoints (documentId : Uuid) (revisionId : Option Uuid) (target : IndexTarget)
    (collection : Text 255) (deleting verifying : DeletionPhase) :
    Honest x (fun _ => True)
      (deletePoints documentId revisionId target collection deleting verifying) :=
  honest_any.bind fun _ _ => (honest_onOutbox fun _ => honest_any).bind fun _ _ =>
    (honest_points _).bind fun _ _ => (honest_onOutbox fun _ => honest_any).bind fun _ _ =>
    honest_any.bind fun _ _ => (honest_verifyDocumentZero _ _).bind fun _ _ => honest_any

theorem honest_purgeDocumentContent (documentId : Uuid) (allowMissing : Bool) :
    Honest x (fun _ => True) (purgeDocumentContent documentId allowMissing) := by
  refine honest_any.bind fun _ _ => Honest.bind (V := fun _ => True) ?_ fun _ _ =>
    (honest_files _).bind fun _ _ => honest_any
  refine (Honest.forEach (fun _ => honest_files _) _).tryCatch fun e he => Honest.fail ?_
  unfold contentMissing
  split
  · rintro ⟨⟩
  · exact he

theorem honest_unless {flag : Bool} {p : Prog Unit} (h : Honest x (fun _ => True) p) :
    Honest x (fun _ => True) (unless_ flag p) := by
  unfold unless_
  split
  · exact Honest.pure trivial
  · exact h

/-- The deletion of the own document ends the operation, or finds the document tombstoned. -/
theorem honest_runDeletionPhases (documentId : Uuid) :
    Honest x (fun _ => ¬ (x.operationType = .delete ∧ documentId = x.documentId))
      (runDeletionPhases s documentId) := by
  refine honest_any.bind fun checkpoint _ => honest_any.bind fun _ _ =>
    honest_requireQdrant.bind fun _ _ => Honest.bind (honest_catalog
      (V := fun flags : DeletionFlags => flags.tombstoned = true →
        ¬ (x.operationType = .delete ∧ documentId = x.documentId))
      fun flags hn htombstoned hown => hn ⟨hown.1,hown.2,htombstoned⟩) fun flags hflags => ?_
  refine (honest_unless (honest_deletePoints _ _ _ _ _ _)).bind fun _ _ =>
    (honest_unless (honest_deletePoints _ _ _ _ _ _)).bind fun _ _ =>
    (honest_unless (honest_any.bind fun _ _ => honest_purgeDocumentContent _ _)).bind fun _ _ => ?_
  unfold unless_
  split
  · rename_i htombstoned
    exact Honest.pure (hflags htombstoned)
  · exact honest_any.bind fun _ _ => honest_catalog fun _ hn hown => hn ⟨rfl,hown.1⟩

theorem honest_runDelete (documentId : Uuid) :
    Honest x (fun _ => ¬ (x.operationType = .delete ∧ documentId = x.documentId))
      (runDelete s documentId) := by
  refine honest_any.bind fun _ _ => (Honest.require ?_).bind fun _ _ =>
    honest_runDeletionPhases documentId
  rintro ⟨⟩

theorem honest_activatePoints (documentId revisionId : Uuid) (active : Text 255)
    (ps : List ChunkPoint) :
    Honest x (fun _ => True) (activatePoints documentId revisionId active ps) :=
  honest_any.bind fun _ _ => honest_any.bind fun _ _ =>
    (honest_upsertPoints _ (keeping_pointBatch _ _ _)).bind fun _ _ =>
    honest_any.bind fun _ _ => (honest_verifyPreparedPoints _ _ _ _).bind fun _ _ =>
    (honest_points _).bind fun _ _ => (honest_verifyPreparedPoints _ _ _ _).bind fun _ _ =>
    honest_any.bind fun _ _ => honest_any

theorem honest_removeScreeningPoints (documentId revisionId : Uuid) :
    Honest x (fun _ => True) (removeScreeningPoints s documentId revisionId) :=
  honest_any.bind fun _ _ => honest_any.bind fun _ _ => (honest_points _).bind fun _ _ =>
    honest_any.bind fun _ _ => (honest_verifyDocumentZero _ _).bind fun _ _ => honest_any

theorem honest_publishRevision (documentId revisionId : Uuid) :
    Honest x (fun _ => False) (publishRevision s documentId revisionId) := by
  refine honest_any.bind fun _ _ => (honest_stage keeping_preparation).bind fun _ _ =>
    (Honest.require ?_).bind fun _ _ => honest_requireQdrant.bind fun _ _ =>
    (honest_activatePoints _ _ _ _).bind fun _ _ =>
    (honest_removeScreeningPoints _ _).bind fun _ _ => honest_catalog fun _ hn => hn rfl
  rintro ⟨⟩

theorem honest_runPublish (documentId : Uuid) :
    Honest x (fun _ => False) (runPublish s documentId) := by
  refine honest_any.bind fun snapshot _ => (Honest.require ?_).bind fun _ _ =>
    (Honest.lift (Keeping.orRaise ?_)).bind fun revisionId _ => ?_
  · rintro ⟨⟩
  · rintro ⟨⟩
  · split
    · exact honest_publishRevision documentId revisionId
    · exact (honest_runDeletionPhases _).bind fun _ _ => honest_publishRevision documentId revisionId

/-! ### The execution of an operation -/

/-- An operation that has been worked on to the end has been shown to have ended. -/
theorem honest_dispatch : Honest x (fun _ => False) (dispatch s enc x) := by
  unfold dispatch
  split
  · exact honest_runPreflight _
  · exact honest_runPublish _
  · rename_i htype
    exact (honest_runDelete _).mono fun _ hn => hn ⟨htype,rfl⟩

/-- The work on an operation returns, and then an answer has shown that it has ended. -/
theorem body_ends : Program.Follows (endings x) (fun y S => y = .ok () ∧ S) (body s enc x) S := by
  refine Follows.tryCatch (honest_dispatch S) (fun a S h => ⟨rfl,?_⟩) fun e S h => ?_
  · by_contra hn
    exact (h hn).2 a rfl
  · split
    · rename_i he
      refine ⟨rfl,?_⟩
      by_contra hn
      exact (h hn).1 (congrArg _ he)
    · refine Follows.request trivial fun y hy => ?_
      cases y with
      | ok a => exact ⟨rfl,Or.inr trivial⟩
      | error e => exact hy.elim

end Lifecycle
end PdfBridge
