import PdfBridge.Lifecycle.Fencing

/-! What the prepared revisions of the catalog contain. Outside the stages of a preparation no
transaction writes a revision: it leaves the revisions of every document alone or empties them. -/
namespace PdfBridge
namespace Lifecycle
open Worker Api Intake Preparation

variable {s : Settings} {enc : Encoding} {now : Time} {worker : Uuid} {ref : OperationRef}
  {c c' : Catalog} {d d' e t : Document} {o : WorkOperation}
  {I : Uuid → Option StorageKey → Table PreparedRevision.id → Prop}

/-- The source key and the revisions of every document satisfy `I`. -/
def Satisfies (I : Uuid → Option StorageKey → Table PreparedRevision.id → Prop) (c : Catalog) :
    Prop :=
  ∀ d, d ∈ c.documents → I d.id d.storageKey d.preparedRevisions

/-- The revisions of every document satisfy `I`. -/
def Holds (I : Uuid → Table PreparedRevision.id → Prop) (c : Catalog) : Prop :=
  ∀ d, d ∈ c.documents → I d.id d.preparedRevisions

/-- A condition that a purge keeps. -/
def Purgeable (I : Uuid → Table PreparedRevision.id → Prop) : Prop :=
  ∀ id revisions ids, I id revisions →
    I id (revisions.update (emptyContent ids) (emptyContent_id ids))

/-- A document with the id, the source key and the revisions of another one. -/
structure SameContent (d d' : Document) : Prop where
  id : d'.id = d.id
  source : d'.storageKey = d.storageKey
  revisions : d'.preparedRevisions = d.preparedRevisions

theorem SameContent.refl (d : Document) : SameContent d d := ⟨rfl,rfl,rfl⟩

theorem SameContent.trans (h : SameContent d d') (h' : SameContent d' e) : SameContent d e :=
  ⟨h'.id.trans h.id,h'.source.trans h.source,h'.revisions.trans h.revisions⟩

theorem Satisfies.put (h : Satisfies I c) (hd : I d.id d.storageKey d.preparedRevisions) :
    Satisfies I (c.put d) := by
  intro e he
  rcases mem_put.1 he with rfl | ⟨he,-⟩
  · exact hd
  · exact h e he

theorem Satisfies.same (h : Satisfies I c) (hd : d ∈ c.documents) (hs : SameContent d d') :
    I d'.id d'.storageKey d'.preparedRevisions := by
  rw [hs.id, hs.source, hs.revisions]
  exact h d hd

theorem Satisfies.put_same (h : Satisfies I c) {c₁ : Catalog} (h₁ : Satisfies I c₁)
    (hd : d ∈ c.documents) (hs : SameContent d d') : Satisfies I (c₁.put d') :=
  h₁.put (h.same hd hs)

theorem Satisfies.mapOperations {f : WorkOperation → WorkOperation} (hf : ∀ o, (f o).id = o.id)
    (h : Satisfies I c) : Satisfies I (Catalog.mapOperations c f hf) := by
  intro e he
  obtain ⟨d,hd,rfl⟩ := mem_mapOperations.1 he
  exact h d hd

/-! ### Operator mutations -/

theorem sameContent_enqueueOperation {type : OperationType} {priority : OperationPriority}
    {revisionId target : Option Uuid} {phase : OperationPhase}
    (h : enqueueOperation now d type priority revisionId target phase = .ok (o,d')) :
    SameContent d d' := by
  obtain ⟨-,-,-,-,rfl⟩ := enqueueOperation_ok h
  exact ⟨rfl,rfl,rfl⟩

theorem sameContent_beginDeletion {disposition : TerminalDisposition} {active screening : Text 255}
    {revisionId publicationId : Option Uuid}
    (h : beginDeletion now c d disposition active screening revisionId publicationId =
      .ok (o,d')) : SameContent d d' := by
  simp only [beginDeletion, bind_eq_ok, require_eq_ok, exists_const] at h
  obtain ⟨-,-,-,h⟩ := h
  split at h
  · simp only [bind_eq_ok, require_eq_ok, orRaise_eq_ok, exists_const, pure_eq_ok,
      Prod.mk.injEq] at h
    obtain ⟨-,-,_,-,-,rfl⟩ := h
    exact SameContent.refl d
  · simp only [bind_eq_ok, require_eq_ok, exists_const] at h
    have hsame := sameContent_enqueueOperation h.2
    exact ⟨hsame.id,hsame.source,hsame.revisions⟩

theorem sameContent_ensurePublicationRecord {r : PreparedRevision}
    (h : ensurePublicationRecord now d r = .ok d') : SameContent d d' := by
  simp only [ensurePublicationRecord, bind_eq_ok, orRaise_eq_ok, require_eq_ok,
    exists_const] at h
  obtain ⟨-,points,-,h⟩ := h
  split at h
  · cases h
    exact ⟨rfl,rfl,rfl⟩
  · simp only [bind_eq_ok, require_eq_ok, exists_const, pure_eq_ok] at h
    obtain ⟨-,-,rfl⟩ := h
    exact SameContent.refl d

theorem registerAdmission_satisfies (hI : ∀ id, I id (some (.object id)) ∅) (hc : Satisfies I c)
    {y : PreparedAdmission} {m : MutationOutcome} (h : registerAdmission s now y c = .ok m) :
    Satisfies I m.catalog := by
  simp only [registerAdmission, bind_eq_ok, require_eq_ok, exists_const, Prod.exists,
    pure_eq_ok] at h
  obtain ⟨-,-,-,o,d,henqueue,rfl⟩ := h
  obtain ⟨-,-,-,-,rfl⟩ := enqueueOperation_ok henqueue
  exact hc.put (hI _)

theorem recordDecision_satisfies (hc : Satisfies I c) {documentId revisionId : Uuid}
    {screening : Text 255} {action : DecisionAction} {targetId : Option Uuid}
    {idempotency : IdempotencyRecord} {actorId : Text 255} {m : MutationOutcome}
    (h : recordDecision now screening c documentId revisionId action targetId idempotency
      actorId = .ok m) : Satisfies I m.catalog := by
  simp only [recordDecision, requireReservation, require_eq_ok, bind_eq_ok, exists_const,
    Prod.exists] at h
  obtain ⟨-,d,hd,r,manifest,-,h⟩ := h
  have hmem := (getDocumentForUpdate_ok hd).1
  cases action with
  | replace =>
    simp only [bind_eq_ok, orRaise_eq_ok, Prod.exists, pure_eq_ok] at h
    obtain ⟨target,-,t,tr,tp,hvalid,o,i',t',hbegin,rfl⟩ := h
    obtain ⟨-,ht,-⟩ := validateReplacementTarget_ok hvalid
    simp only [beginReplacement, bind_eq_ok, require_eq_ok, exists_const, Prod.exists,
      pure_eq_ok, Prod.mk.injEq] at hbegin
    obtain ⟨-,-,i₁,hensure,o₁,i₂,henqueue,-,rfl,rfl⟩ := hbegin
    have hi₁ := sameContent_ensurePublicationRecord hensure
    have hi₂ := sameContent_enqueueOperation henqueue
    exact hc.put_same (hc.put_same hc ht ⟨rfl,rfl,rfl⟩) hmem
      ⟨hi₂.id.trans hi₁.id,hi₂.source.trans hi₁.source,hi₂.revisions.trans hi₁.revisions⟩
  | cancel =>
    simp only [bind_eq_ok, require_eq_ok, exists_const, Prod.exists, pure_eq_ok] at h
    obtain ⟨-,o,d',hbegin,rfl⟩ := h
    have hd' := sameContent_beginDeletion hbegin
    exact hc.put_same hc hmem ⟨hd'.id,hd'.source,hd'.revisions⟩
  | keep =>
    simp only [bind_eq_ok, require_eq_ok, exists_const, Prod.exists, pure_eq_ok] at h
    obtain ⟨-,d₁,hensure,o,d',henqueue,rfl⟩ := h
    have hd₁ := sameContent_ensurePublicationRecord hensure
    have hd' := sameContent_enqueueOperation henqueue
    exact hc.put_same hc hmem ⟨hd'.id.trans hd₁.id,hd'.source.trans hd₁.source,
      hd'.revisions.trans hd₁.revisions⟩

theorem requestRetry_satisfies (hc : Satisfies I c) {documentId : Uuid}
    {idempotency : IdempotencyRecord} {actorId : Text 255} {m : MutationOutcome}
    (h : requestRetry now c documentId idempotency actorId = .ok m) : Satisfies I m.catalog := by
  simp only [requestRetry, requireReservation, require_eq_ok, bind_eq_ok, orRaise_eq_ok,
    exists_const, Prod.exists] at h
  obtain ⟨-,requested,hrequested,-,d,howner,type,state,-,o,-,-,priority,-,-,h⟩ := h
  obtain ⟨hd,-⟩ := retryOwner_ok howner (getDocumentForUpdate_ok hrequested).1
  cases type with
  | preflight =>
    simp only [bind_eq_ok, require_eq_ok, exists_const, Prod.exists, pure_eq_ok] at h
    obtain ⟨-,x,d',henqueue,rfl⟩ := h
    have hd' := sameContent_enqueueOperation henqueue
    exact hc.put_same hc hd ⟨hd'.id,hd'.source,hd'.revisions⟩
  | publish =>
    simp only [bind_eq_ok] at h
    obtain ⟨d₁,hreset,h⟩ := h
    obtain ⟨p,-,rfl⟩ := resetPublication_ok hreset
    split at h
    · simp only [bind_eq_ok, Prod.exists, pure_eq_ok] at h
      obtain ⟨x,d',henqueue,rfl⟩ := h
      have hd' := sameContent_enqueueOperation henqueue
      exact hc.put_same hc hd ⟨hd'.id,hd'.source,hd'.revisions⟩
    · simp only [bind_eq_ok, Prod.exists, pure_eq_ok] at h
      obtain ⟨t',hresume,x,d',henqueue,rfl⟩ := h
      obtain ⟨t,ht,hcases⟩ := resumeReplacementTarget_ok hresume
      have htt : SameContent t t' := by
        rcases hcases with ⟨-,q,-,rfl⟩ | ⟨-,rfl⟩ <;> exact ⟨rfl,rfl,rfl⟩
      have hd' := sameContent_enqueueOperation henqueue
      exact hc.put_same (hc.put_same hc (Catalog.mem_of_document? ht) htt) hd
        ⟨hd'.id,hd'.source,hd'.revisions⟩
  | delete =>
    simp only [bind_eq_ok, orRaise_eq_ok, require_eq_ok, exists_const, Prod.exists,
      pure_eq_ok] at h
    obtain ⟨p,-,-,x,d',henqueue,rfl⟩ := h
    have hd' := sameContent_enqueueOperation henqueue
    exact hc.put_same hc hd ⟨hd'.id,hd'.source,hd'.revisions⟩

theorem deleteDocument_satisfies (hc : Satisfies I c) {documentId : Uuid} {actorId : Text 255}
    {m : MutationOutcome} (h : deleteDocument s now documentId actorId c = .ok m) :
    Satisfies I m.catalog := by
  simp only [deleteDocument, bind_eq_ok, orRaise_eq_ok] at h
  obtain ⟨d,-,definition,-,h⟩ := h
  obtain ⟨d₁,hd,-,hsame | ⟨-,target,revision,publication,d',-,hbegin,hput⟩⟩ := requestDeletion_ok h
  · rw [hsame]
    exact hc
  · rw [hput]
    exact hc.put_same hc hd (sameContent_beginDeletion hbegin)

/-! ### Transactions of an execution -/

theorem putDeletion_satisfies (hc : Satisfies I c) (hd : d ∈ c.documents) {o : WorkOperation}
    {id : Uuid} {f : Document → Document} (hf : ∀ e, e ∈ c.documents → e.id = id →
      ∀ t, SameContent e t → I (f t).id (f t).storageKey (f t).preparedRevisions) :
    Satisfies I (putDeletion c d o id f) := by
  have hput : Satisfies I (c.put (d.putOperation o)) := hc.put (hc d hd)
  unfold putDeletion
  dsimp only
  split
  · exact hput
  · rename_i t ht
    have hid := Catalog.id_of_document? ht
    refine hput.put ?_
    rcases mem_put.1 (Catalog.mem_of_document? ht) with rfl | ⟨hmem,-⟩
    · exact hf d hd hid _ ⟨rfl,rfl,rfl⟩
    · exact hf t hmem hid t (SameContent.refl t)

theorem putDeletion_same (hc : Satisfies I c) (hd : d ∈ c.documents) {o : WorkOperation} {id : Uuid}
    {f : Document → Document} (hf : ∀ t, SameContent t (f t)) :
    Satisfies I (putDeletion c d o id f) :=
  putDeletion_satisfies hc hd fun _ he _ t ht => hc.same he (ht.trans (hf t))

theorem sameContent_failDocument {code : FailureCode} {message : Text 500} {retryable : Bool} :
    SameContent d (failDocument o code message retryable d) := by
  have hp : SameContent d (failPublication code o.preparedRevisionId d) := by
    unfold failPublication
    split
    · exact SameContent.refl d
    · split <;> exact ⟨rfl,rfl,rfl⟩
  unfold failDocument
  split
  · exact ⟨rfl,rfl,rfl⟩
  · exact ⟨hp.id,hp.source,hp.revisions⟩
  · exact ⟨rfl,rfl,rfl⟩

theorem sameContent_failReplacementTarget {code : FailureCode} {message : Text 500}
    {retryable : Bool} : SameContent t (failReplacementTarget code message retryable t) := by
  unfold failReplacementTarget
  split <;> exact ⟨rfl,rfl,rfl⟩

theorem failOperation_satisfies (hc : Satisfies I c) {e : ServiceError} {u : Unit}
    (h : failOperation now ref e c = .ok (u,c')) : Satisfies I c' := by
  simp only [failOperation] at h
  split at h
  · cases h
    exact hc
  · rename_i d o hfound
    split at h
    · cases h
      exact hc
    · simp only [Option.bind_eq_some_iff, Option.map_eq_some_iff, Prod.mk.injEq] at hfound
      obtain ⟨d₁,hd,o₁,-,rfl,rfl⟩ := hfound
      have hfailed : ∀ code message retryable, SameContent d₁ (failPendingOutbox code message
          (failDocument o₁ code message retryable
            (d₁.putOperation (failedOperation now code message retryable o₁)))) := by
        intro code message retryable
        have hs := @sameContent_failDocument
          (d₁.putOperation (failedOperation now code message retryable o₁)) o₁ code message
          retryable
        exact ⟨hs.id,hs.source,hs.revisions⟩
      simp only [pure_eq_ok, Prod.mk.injEq] at h
      obtain ⟨-,rfl⟩ := h
      split
      · rename_i t _ ht
        obtain ⟨id,-,hlookup⟩ := Option.bind_eq_some_iff.1 ht
        refine hc.put_same (hc.put_same hc (Catalog.mem_of_document? hlookup) ?_)
          (Catalog.mem_of_document? hd) (hfailed _ _ _)
        exact sameContent_failReplacementTarget.trans ⟨rfl,rfl,rfl⟩
      · exact hc.put_same hc (Catalog.mem_of_document? hd) (hfailed _ _ _)

theorem queueRejectionCleanup_content {code : FailureCode} {active screening : Text 255}
    {revisionId : Option Uuid}
    (h : queueRejectionCleanup now c d code active screening revisionId = .ok (o,d')) :
    SameContent d d' := by
  have hbegin : ∃ d₁, beginDeletion now c d .rejected active screening revisionId none =
      .ok (o,d₁) ∧ d' = {d₁ with failureCode := some code} := by
    unfold queueRejectionCleanup at h
    by_cases hstate : d.state = .deleting ∨ d.state = .deleteFailed
    · simp only [if_pos hstate, bind_eq_ok, require_eq_ok, exists_const, Prod.exists, pure_eq_ok,
        Prod.mk.injEq] at h
      obtain ⟨-,-,o₁,d₁,hbegin,rfl,rfl⟩ := h
      exact ⟨d₁,hbegin,rfl⟩
    · simp only [if_neg hstate, bind_eq_ok, require_eq_ok, exists_const, Prod.exists, pure_eq_ok,
        Prod.mk.injEq] at h
      obtain ⟨-,o₁,d₁,hbegin,rfl,rfl⟩ := h
      exact ⟨d₁,hbegin,rfl⟩
  obtain ⟨d₁,hbegin,rfl⟩ := hbegin
  have hs := sameContent_beginDeletion hbegin
  exact ⟨hs.id,hs.source,hs.revisions⟩

theorem queueClearPublication_content {r : PreparedRevision}
    (h : queueClearPublication now d r = .ok (o,d')) : SameContent d d' := by
  unfold queueClearPublication at h
  split at h
  · simp only [bind_eq_ok, orRaise_eq_ok, pure_eq_ok, Prod.mk.injEq] at h
    obtain ⟨o₁,-,rfl,rfl⟩ := h
    exact SameContent.refl d
  · simp only [bind_eq_ok, require_eq_ok, exists_const] at h
    obtain ⟨-,d₁,hensure,henqueue⟩ := h
    have hs := sameContent_enqueueOperation henqueue
    exact (sameContent_ensurePublicationRecord hensure).trans ⟨hs.id,hs.source,hs.revisions⟩

/-- A transaction that is no stage of a preparation keeps what it does not purge. -/
theorem request_satisfies (hc : Satisfies I c) {r : CatalogRequest} {a : r.Response}
    (hpurge : ∀ id b, r = .purgeContentRows id b → ∀ d, d ∈ c.documents → d.id = id →
      I id none (d.preparedRevisions.update (emptyContent b.revisionIds)
        (emptyContent_id b.revisionIds)))
    (hr : writesRevision r = false) (h : r.run s enc now worker ref c = .ok (a,c')) :
    Satisfies I c' := by
  have same : ∀ {α : Type} {y : Outcome α} {a : α}, reading y c = .ok (a,c') → Satisfies I c' := by
    intro α y a hy
    rw [(reading_ok hy).1]
    exact hc
  have owned : ∀ {e : ServiceError} {d d' o}, ownedOperation worker ref c e = .ok (d,o) →
      SameContent d d' → Satisfies I (c.put d') := fun ho hs =>
    hc.put_same hc (ownedOperation_ok ho).document hs
  cases r with
  | operationSnapshot | preflightSource | loadPreparedMarkdownPages | reconstructChunkPoints
  | latestMutableRevision | artifactSequence | catalogCandidateContext | classificationExcerpts
  | publicationBinding | deletionCheckpoint | deletionFlags | purgeBinding => exact same h
  | beginPreparation | recordExtraction | recordFormatting | recordChunkVectors
  | failPreparation | insertArtifact | recordPreflightCandidates | appendAdvisoryEvidence
  | sealPreparedRevision => cases hr
  | setPhase phase =>
    simp only [CatalogRequest.run, setPhase, bind_eq_ok, Prod.exists, pure_eq_ok,
      Prod.mk.injEq] at h
    obtain ⟨d,o,howned,-,rfl⟩ := h
    exact owned howned ⟨rfl,rfl,rfl⟩
  | bindRevision id =>
    simp only [CatalogRequest.run, bindRevision, bind_eq_ok, orRaise_eq_ok, Prod.exists,
      pure_eq_ok, Prod.mk.injEq] at h
    obtain ⟨d,o,howned,r,-,-,rfl⟩ := h
    exact owned howned ⟨rfl,rfl,rfl⟩
  | failOperation e => exact failOperation_satisfies hc h
  | beginOutbox k n =>
    obtain ⟨d,d',hd,hrun,rfl⟩ := onDocument_ok h
    refine hc.put_same hc (Catalog.mem_of_document? hd) ?_
    simp only [Worker.beginOutbox, bind_eq_ok, require_eq_ok, exists_const] at hrun
    obtain ⟨-,hrun⟩ := hrun
    split at hrun
    · cases hrun
      exact ⟨rfl,rfl,rfl⟩
    · simp only [bind_eq_ok, require_eq_ok, exists_const, pure_eq_ok, Prod.mk.injEq] at hrun
      obtain ⟨-,-,rfl⟩ := hrun
      exact ⟨rfl,rfl,rfl⟩
  | completeOutbox k =>
    obtain ⟨d,d',hd,hrun,rfl⟩ := onDocument_ok h
    simp only [Worker.completeOutbox, bind_eq_ok, orRaise_eq_ok, require_eq_ok, exists_const,
      pure_eq_ok, Prod.mk.injEq] at hrun
    obtain ⟨e,-,-,-,rfl⟩ := hrun
    exact hc.put_same hc (Catalog.mem_of_document? hd) ⟨rfl,rfl,rfl⟩
  | countDeletionAttempt id =>
    obtain ⟨d,d',hd,hrun,rfl⟩ := onDocument_ok h
    simp only [Worker.countDeletionAttempt, bind_eq_ok, orRaise_eq_ok, pure_eq_ok,
      Prod.mk.injEq] at hrun
    obtain ⟨p,-,-,rfl⟩ := hrun
    exact hc.put_same hc (Catalog.mem_of_document? hd) ⟨rfl,rfl,rfl⟩
  | acceptRejection reason active =>
    simp only [CatalogRequest.run, acceptRejection, bind_eq_ok, Prod.exists, pure_eq_ok,
      Prod.mk.injEq] at h
    obtain ⟨d,o,howned,o₁,d',hqueue,-,rfl⟩ := h
    have hs := queueRejectionCleanup_content hqueue
    exact owned howned ⟨hs.id,hs.source,hs.revisions⟩
  | finishPreflight prepared =>
    simp only [CatalogRequest.run, finishPreflight, bind_eq_ok, orRaise_eq_ok, require_eq_ok,
      exists_const, Prod.exists] at h
    obtain ⟨d,o,howned,r,-,-,-,h⟩ := h
    split at h
    · simp only [bind_eq_ok, Prod.exists, pure_eq_ok, Prod.mk.injEq] at h
      obtain ⟨o₁,d',hqueue,-,rfl⟩ := h
      have hs := queueClearPublication_content hqueue
      exact owned howned ⟨hs.id,hs.source,hs.revisions⟩
    · simp only [pure_eq_ok, Prod.mk.injEq] at h
      obtain ⟨-,rfl⟩ := h
      exact owned howned ⟨rfl,rfl,rfl⟩
  | markUpserted id =>
    simp only [CatalogRequest.run, markUpserted, bind_eq_ok, orRaise_eq_ok, require_eq_ok,
      exists_const, Prod.exists, pure_eq_ok, Prod.mk.injEq] at h
    obtain ⟨d,o,howned,p,-,-,-,rfl⟩ := h
    exact owned howned ⟨rfl,rfl,rfl⟩
  | finishPublication id n =>
    simp only [CatalogRequest.run, finishPublication, bind_eq_ok, orRaise_eq_ok, require_eq_ok,
      exists_const, Prod.exists] at h
    obtain ⟨d,o,howned,r,-,p,-,-,h⟩ := h
    split at h
    · simp only [pure_eq_ok, Prod.mk.injEq, true_and] at h
      subst h
      exact owned howned ⟨rfl,rfl,rfl⟩
    · simp only [bind_eq_ok, require_eq_ok, exists_const, pure_eq_ok, Prod.mk.injEq,
        true_and] at h
      obtain ⟨-,rfl⟩ := h
      exact owned howned ⟨rfl,rfl,rfl⟩
  | setDeletionPhase id phase =>
    simp only [CatalogRequest.run, setDeletionPhase, bind_eq_ok, orRaise_eq_ok, require_eq_ok,
      exists_const, Prod.exists, pure_eq_ok, Prod.mk.injEq] at h
    obtain ⟨d,o,howned,t,-,p,-,-,-,rfl⟩ := h
    exact putDeletion_same hc (ownedOperation_ok howned).document fun _ => ⟨rfl,rfl,rfl⟩
  | recordZeroVerification id target =>
    simp only [CatalogRequest.run, recordZeroVerification, bind_eq_ok, orRaise_eq_ok,
      Prod.exists] at h
    obtain ⟨d,o,howned,t,-,p,-,h⟩ := h
    have hd := (ownedOperation_ok howned).document
    cases target with
    | active =>
      simp only [pure_eq_ok, Prod.mk.injEq] at h
      obtain ⟨-,rfl⟩ := h
      exact putDeletion_same hc hd fun _ => ⟨rfl,rfl,rfl⟩
    | screening =>
      simp only [bind_eq_ok, require_eq_ok, exists_const, pure_eq_ok, Prod.mk.injEq] at h
      obtain ⟨-,-,rfl⟩ := h
      exact putDeletion_same hc hd fun _ => ⟨rfl,rfl,rfl⟩
  | purgeContentRows id b =>
    simp only [CatalogRequest.run, purgeContentRows, bind_eq_ok, orRaise_eq_ok, require_eq_ok,
      exists_const, Prod.exists, pure_eq_ok, Prod.mk.injEq] at h
    obtain ⟨d,o,howned,t,ht,p,-,-,-,rfl⟩ := h
    have hd := (ownedOperation_ok howned).document
    refine putDeletion_satisfies hc hd fun e he hid t ht => ?_
    have hempty := hpurge id b rfl e he hid
    dsimp only
    rw [ht.id, ht.revisions, hid]
    exact hempty
  | commitDeletion id =>
    simp only [CatalogRequest.run, commitDeletion, bind_eq_ok, orRaise_eq_ok, require_eq_ok,
      exists_const, Prod.exists, pure_eq_ok, Prod.mk.injEq] at h
    obtain ⟨d,o,-,t,ht,p,-,-,t',hcommit,-,rfl⟩ := h
    have hs : SameContent t t' := by
      rcases commitTombstone_ok hcommit with ⟨rfl,-⟩ | ⟨-,q,y,-,-,-,-,rfl⟩ <;> exact ⟨rfl,rfl,rfl⟩
    refine hc.put_same hc (Catalog.mem_of_document? ht) ?_
    split
    · exact ⟨hs.id,hs.source,hs.revisions⟩
    · exact hs

/-! ### Events -/

variable {strands : Prop} {w w' : World} {e : Event} {know : Slot → Knowledge}

/-- The event writes a document that was not there. -/
def Admits : Event → Prop
  | .upload _ committed => committed = true
  | _ => False

/-- An event keeps a condition on the content of documents if admissions establish it, and purges
and the stages of a preparation keep it. -/
theorem apply_satisfies (h : WorldInv s strands w know)
    (hempty : Admits e → ∀ id, I id (some (.object id)) ∅)
    (hpurge : ∀ {slot claimed id b} {k : Except ServiceError Unit → Prog Unit},
      w.slots slot = some ⟨claimed,.call (.catalog (.purgeContentRows id b)) k⟩ →
      permitsCatalog s claimed (know slot) (.purgeContentRows id b) →
      ∀ d, d ∈ w.shared.catalog.documents → d.id = id →
        I id none (d.preparedRevisions.update (emptyContent b.revisionIds)
          (emptyContent_id b.revisionIds)))
    (hstage : ∀ {slot claimed} {r : CatalogRequest} {k : Except ServiceError r.Response → Prog Unit}
      {a : r.Response} {c : Catalog},
      w.slots slot = some ⟨claimed,.call (.catalog r) k⟩ →
      permitsCatalog s claimed (know slot) r → writesRevision r = true →
      knows s enc w know e slot = next s claimed (.catalog r) (know slot) (.ok a) →
      r.run s enc w.shared.now w.shared.process.workerId claimed.ref w.shared.catalog =
        .ok (a,c) → Satisfies I c)
    (hc : Satisfies I w.shared.catalog) (happly : w.apply s enc e = some w') :
    Satisfies I w'.shared.catalog := by
  have mutation : ∀ {x : Outcome Catalog}, w.commit x = some w' →
      (∀ c, x = .ok c → Satisfies I c) → Satisfies I w'.shared.catalog := by
    intro x hx hholds
    obtain ⟨c,hc,rfl⟩ := commit_ok hx
    exact hholds c hc
  cases e with
  | upload x committed =>
    obtain ⟨m,hm,rfl⟩ := upload_ok happly
    cases committed with
    | true => exact registerAdmission_satisfies (hempty rfl) hc hm
    | false => exact hc
  | decide x =>
    refine mutation happly fun c hx => ?_
    obtain ⟨m,hm,rfl⟩ := runMutation_ok hx
    exact recordDecision_satisfies hc hm
  | retry id actor =>
    refine mutation happly fun c hx => ?_
    obtain ⟨m,hm,rfl⟩ := runMutation_ok hx
    exact requestRetry_satisfies hc hm
  | delete id actor =>
    refine mutation happly fun c hx => ?_
    obtain ⟨m,hm,rfl⟩ := runMutation_ok hx
    exact deleteDocument_satisfies hc hm
  | claim slot =>
    obtain ⟨hslot,claimed,p,c,hclaim,rfl⟩ := claim_ok happly
    obtain ⟨d,o,o',hd,-,-,-,-,-,rfl⟩ := claimNext_ok h.catalog hclaim
    exact hc.put (hc d hd)
  | work slot i =>
    obtain ⟨claimed,r,k,a,σ,hslot,hexec,hwork,rfl⟩ := work_ok happly
    change Satisfies I σ.catalog
    obtain ⟨-,-,hpermits,-⟩ := h.threads slot _ hslot
    cases r with
    | catalog r =>
      rcases exec_catalog hexec with ⟨b,c,hrun,rfl,rfl⟩ | ⟨e,-,rfl,-⟩
      · cases hr : writesRevision r with
        | true =>
          refine hstage hslot hpermits hr ?_ hrun
          simp only [knows, hslot, hwork, Function.update_self]
        | false =>
          refine request_satisfies hc ?_ hr hrun
          rintro id b rfl
          exact hpurge hslot hpermits
      · exact hc
    | _ =>
      rw [(exec_other hexec (by rintro _ ⟨⟩)).1]
      exact hc
  | recoverLeases =>
    cases happly
    exact hc.mapOperations _
  | renewLeases =>
    cases happly
    exact hc.mapOperations _
  | wait n =>
    cases happly
    exact hc
  | restart =>
    cases happly
    exact hc

/-- An event keeps a condition on revisions if admissions establish it and the stages of a
preparation keep it. -/
theorem apply_holds {I : Uuid → Table PreparedRevision.id → Prop} (h : WorldInv s strands w know)
    (hI : Purgeable I) (hempty : Admits e → ∀ id, I id ∅)
    (hstage : ∀ {slot t} {r : CatalogRequest} {a : r.Response} {c : Catalog},
      w.slots slot = some t → permitsCatalog s t.claimed (know slot) r →
      writesRevision r = true →
      r.run s enc w.shared.now w.shared.process.workerId t.claimed.ref w.shared.catalog =
        .ok (a,c) → Holds I c)
    (hc : Holds I w.shared.catalog) (happly : w.apply s enc e = some w') :
    Holds I w'.shared.catalog := by
  refine apply_satisfies (I := fun id _ => I id) h hempty ?_ ?_ hc happly
  · rintro slot claimed id b k - - d hd rfl
    exact hI _ _ _ (hc d hd)
  · intro slot claimed r k a c hslot hpermits hr _ hrun
    exact hstage hslot hpermits hr hrun

/-- Only an admission writes a document that was not there. -/
theorem apply_ids (h : WorldInv s strands w know) (he : ¬ Admits e)
    (happly : w.apply s enc e = some w') {d' : Document} (hd' : d' ∈ w'.shared.catalog.documents) :
    ∃ d, d ∈ w.shared.catalog.documents ∧ d.id = d'.id := by
  have hholds : Holds (fun id _ => ∃ d, d ∈ w.shared.catalog.documents ∧ d.id = id)
      w'.shared.catalog := by
    refine apply_holds h (fun _ _ _ hd => hd) (fun ha => absurd ha he) ?_ (fun d hd => ⟨d,hd,rfl⟩)
      happly
    intro slot t r a c _ _ hr hrun d hd
    obtain ⟨d₁,revisions,hd₁,rfl⟩ := request_revises hrun hr
    rcases mem_put.1 hd with rfl | ⟨hd,-⟩
    · exact ⟨d₁,hd₁,rfl⟩
    · exact ⟨d,hd,rfl⟩
  exact hholds d' hd'

/-- Without an admission every document comes from one that was there. -/
theorem apply_documents (h : WorldInv s True w know) (he : ¬ Admits e)
    (happly : w.apply s enc e = some w') {d' : Document} (hd' : d' ∈ w'.shared.catalog.documents) :
    ∃ d, d ∈ w.shared.catalog.documents ∧ Change s (fun _ => True) w.shared.now d d' := by
  have hchange : CatalogChange s True (fun _ => True) w.shared.now w.shared.catalog
      w'.shared.catalog := (apply_change h (fun _ => trivial) (fun _ _ => trivial) happly).1
  rcases hchange.backward hd' with hd | ⟨x,rfl⟩
  · exact hd
  · obtain ⟨d,hd,hid⟩ := apply_ids h he happly hd'
    have hinv := h.catalog.documents d hd
    have hnow : d.createdAt = w.shared.now :=
      congrArg Uuid.drawnAt (hinv.drawn.symm.trans hid)
    exact absurd hinv.fresh (by rw [hnow]; exact lt_irrefl _)

end Lifecycle
end PdfBridge
