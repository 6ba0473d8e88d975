import PdfBridge.Lifecycle.Fencing

/-! The rows of the work operations: every write that a committed transaction makes to one, and
what follows for all rows of every reachable catalog. -/
namespace PdfBridge
namespace Lifecycle
open Worker Api Intake Preparation

variable {s : Settings} {enc : Encoding} {strands : Prop} {now : Time} {worker : Uuid}
  {ref : OperationRef} {x : ClaimedOperation} {K : Knowledge} {c c' c₁ : Catalog}
  {d d' d₁ t : Document} {o o' : WorkOperation}

/-! ### Writes -/

/-- One write to the row of an operation. Only a queued operation is claimed, and every other
write finds it running. -/
inductive Write (s : Settings) (now : Time) : WorkOperation → WorkOperation → Prop
  | claim {o : WorkOperation} (h : o.state = .queued) (worker : Uuid) :
      Write s now o {o with
        state := .running, workerId := some worker, startedAt := some (o.startedAt.getD now),
        leaseExpiresAt := some (now + s.leaseSeconds)}
  | recover {o : WorkOperation} (h : o.state = .running) :
      Write s now o {o with state := .queued, workerId := none, leaseExpiresAt := none}
  | renew {o : WorkOperation} (h : o.state = .running) :
      Write s now o {o with leaseExpiresAt := some (now + s.leaseSeconds)}
  | phase {o : WorkOperation} (h : o.state = .running) (phase : OperationPhase) :
      Write s now o (setOperationPhase now o phase)
  | bind {o : WorkOperation} (h : o.state = .running) (id : Option Uuid) :
      Write s now o {o with preparedRevisionId := id}
  | succeed {o : WorkOperation} (h : o.state = .running) (phase : OperationPhase) :
      Write s now o (Worker.succeed now phase o)
  | fail {o : WorkOperation} (h : o.state = .running) (code : FailureCode) (message : Text 500)
      (retryable : Bool) : Write s now o (failedOperation now code message retryable o)

/-- The writes of one transaction to a row. -/
abbrev Writes (s : Settings) (now : Time) : WorkOperation → WorkOperation → Prop :=
  Relation.ReflTransGen (Write s now)

/-- A row that a transaction has enqueued. -/
def Enqueued (now : Time) (o : WorkOperation) : Prop :=
  ∃ (d : Document) (type : OperationType) (priority : OperationPriority)
    (revisionId target : Option Uuid) (phase : OperationPhase),
    o = newOperation now d type priority revisionId target phase

theorem enqueued_newOperation {type : OperationType} {priority : OperationPriority}
    {revisionId target : Option Uuid} {phase : OperationPhase} :
    Enqueued now (newOperation now d type priority revisionId target phase) :=
  ⟨d,type,priority,revisionId,target,phase,rfl⟩

/-- A row of `d` after a transaction, or one that the transaction has enqueued. -/
def Written (s : Settings) (now : Time) (d : Document) (o' : WorkOperation) : Prop :=
  Enqueued now o' ∨ ∃ o, o ∈ d.operations ∧ Writes s now o o'

theorem written_self (ho : o ∈ d.operations) : Written s now d o :=
  Or.inr ⟨o,ho,Relation.ReflTransGen.refl⟩

theorem written_of (ho : o ∈ d.operations) (h : Write s now o o') : Written s now d o' :=
  Or.inr ⟨o,ho,Relation.ReflTransGen.single h⟩

/-- What a transaction does to the operations of a document. -/
structure Rewrites (s : Settings) (now : Time) (d d' : Document) : Prop where
  id : d'.id = d.id
  operations : ∀ o', o' ∈ d'.operations → Written s now d o'

theorem Rewrites.of_operations (hid : d'.id = d.id) (h : d'.operations = d.operations) :
    Rewrites s now d d' := by
  refine ⟨hid,fun o' ho' => written_self ?_⟩
  rw [← h]
  exact ho'

theorem Rewrites.refl (d : Document) : Rewrites s now d d := Rewrites.of_operations rfl rfl

theorem Rewrites.putOperation (h : Rewrites s now d d') (ho : Written s now d o) :
    Rewrites s now d (d'.putOperation o) := by
  refine ⟨h.id,fun o' ho' => ?_⟩
  rcases Table.mem_put.1 ho' with rfl | ⟨ho',-⟩
  · exact ho
  · exact h.operations o' ho'

theorem Rewrites.with_operations {e : Document} (h : Rewrites s now d d') (hid : e.id = d'.id)
    (hops : e.operations = d'.operations) : Rewrites s now d e := by
  refine ⟨hid.trans h.id,fun o' ho' => h.operations o' ?_⟩
  rw [← hops]
  exact ho'

/-- What a transaction does to the operations of the catalog. -/
def CatalogRewrites (s : Settings) (now : Time) (c c' : Catalog) : Prop :=
  ∀ d', d' ∈ c'.documents → (∀ o', o' ∈ d'.operations → Enqueued now o') ∨
    ∃ d, d ∈ c.documents ∧ Rewrites s now d d'

theorem CatalogRewrites.refl (c : Catalog) : CatalogRewrites s now c c :=
  fun d hd => Or.inr ⟨d,hd,Rewrites.refl d⟩

theorem CatalogRewrites.put (h : CatalogRewrites s now c c₁) (hd : d ∈ c.documents)
    (hr : Rewrites s now d d') : CatalogRewrites s now c (c₁.put d') := by
  intro e he
  rcases mem_put.1 he with rfl | ⟨he,-⟩
  · exact Or.inr ⟨d,hd,hr⟩
  · exact h e he

theorem CatalogRewrites.mapOperations {f : WorkOperation → WorkOperation}
    (hf : ∀ o, (f o).id = o.id) (hw : ∀ o, o = f o ∨ Write s now o (f o)) :
    CatalogRewrites s now c (Catalog.mapOperations c f hf) := by
  intro d' hd'
  obtain ⟨d,hd,rfl⟩ := mem_mapOperations.1 hd'
  refine Or.inr ⟨d,hd,rfl,fun o' ho' => ?_⟩
  obtain ⟨o,ho,rfl⟩ := List.mem_map.1 ho'
  rcases hw o with he | hw
  · rw [← he]
    exact written_self ho
  · exact written_of ho hw

/-! ### Operator mutations -/

theorem rewrites_enqueueOperation {type : OperationType} {priority : OperationPriority}
    {revisionId target : Option Uuid} {phase : OperationPhase}
    (h : enqueueOperation now d₁ type priority revisionId target phase = .ok (o,d'))
    (hr : Rewrites s now d d₁) : Rewrites s now d d' := by
  obtain ⟨-,-,-,-,rfl⟩ := enqueueOperation_ok h
  exact hr.putOperation (Or.inl enqueued_newOperation)

theorem rewrites_beginDeletion {disposition : TerminalDisposition} {active screening : Text 255}
    {revisionId publicationId : Option Uuid}
    (h : beginDeletion now c d₁ disposition active screening revisionId publicationId =
      .ok (o,d')) (hr : Rewrites s now d d₁) : Rewrites s now d d' := by
  simp only [beginDeletion, bind_eq_ok, require_eq_ok, exists_const] at h
  obtain ⟨-,-,-,h⟩ := h
  split at h
  · simp only [bind_eq_ok, require_eq_ok, orRaise_eq_ok, exists_const, pure_eq_ok,
      Prod.mk.injEq] at h
    obtain ⟨-,-,_,-,-,rfl⟩ := h
    exact hr
  · simp only [bind_eq_ok, require_eq_ok, exists_const] at h
    exact rewrites_enqueueOperation h.2 (hr.with_operations rfl rfl)

theorem registerAdmission_rewrites {y : PreparedAdmission} {m : MutationOutcome}
    (h : registerAdmission s now y c = .ok m) : CatalogRewrites s now c m.catalog := by
  simp only [registerAdmission, bind_eq_ok, require_eq_ok, exists_const, Prod.exists,
    pure_eq_ok] at h
  obtain ⟨-,-,-,o,d,henqueue,rfl⟩ := h
  obtain ⟨-,-,-,-,rfl⟩ := enqueueOperation_ok henqueue
  intro e he
  rcases mem_put.1 he with rfl | ⟨he,-⟩
  · refine Or.inl fun o' ho' => ?_
    rcases Table.mem_put.1 ho' with rfl | ⟨ho',-⟩
    · exact enqueued_newOperation
    · exact absurd ho' (Table.not_mem_empty o')
  · exact Or.inr ⟨e,he,Rewrites.refl e⟩

theorem recordDecision_rewrites {documentId revisionId : Uuid} {screening : Text 255}
    {action : DecisionAction} {targetId : Option Uuid} {idempotency : IdempotencyRecord}
    {actorId : Text 255} {m : MutationOutcome}
    (h : recordDecision now screening c documentId revisionId action targetId idempotency
      actorId = .ok m) : CatalogRewrites s now c m.catalog := by
  simp only [recordDecision, requireReservation, require_eq_ok, bind_eq_ok, exists_const,
    Prod.exists] at h
  obtain ⟨-,d,hd,r,manifest,-,h⟩ := h
  have hmem := (getDocumentForUpdate_ok hd).1
  cases action with
  | replace =>
    simp only [bind_eq_ok, orRaise_eq_ok, Prod.exists, pure_eq_ok] at h
    obtain ⟨target,-,t,tr,tp,hvalid,o,i',t',hbegin,rfl⟩ := h
    obtain ⟨-,ht,-⟩ := validateReplacementTarget_ok hvalid
    simp only [beginReplacement, bind_eq_ok, require_eq_ok, exists_const, Prod.exists,
      pure_eq_ok, Prod.mk.injEq] at hbegin
    obtain ⟨-,-,i₁,hensure,o₁,i₂,henqueue,-,rfl,rfl⟩ := hbegin
    obtain ⟨hid,hops⟩ := ensurePublicationRecord_operations hensure
    have hi := rewrites_enqueueOperation (s := s) henqueue
      (Rewrites.of_operations (d := d) hid hops)
    refine CatalogRewrites.put (CatalogRewrites.put (CatalogRewrites.refl c) ht ?_) hmem hi
    exact Rewrites.of_operations rfl rfl
  | cancel =>
    simp only [bind_eq_ok, require_eq_ok, exists_const, Prod.exists, pure_eq_ok] at h
    obtain ⟨-,o,d',hbegin,rfl⟩ := h
    exact (CatalogRewrites.refl c).put hmem
      (rewrites_beginDeletion hbegin (Rewrites.of_operations rfl rfl))
  | keep =>
    simp only [bind_eq_ok, require_eq_ok, exists_const, Prod.exists, pure_eq_ok] at h
    obtain ⟨-,d₁,hensure,o,d',henqueue,rfl⟩ := h
    obtain ⟨hid,hops⟩ := ensurePublicationRecord_operations hensure
    exact (CatalogRewrites.refl c).put hmem
      (rewrites_enqueueOperation henqueue (Rewrites.of_operations hid hops))

theorem requestRetry_rewrites {documentId : Uuid} {idempotency : IdempotencyRecord}
    {actorId : Text 255} {m : MutationOutcome}
    (h : requestRetry now c documentId idempotency actorId = .ok m) :
    CatalogRewrites s now c m.catalog := by
  simp only [requestRetry, requireReservation, require_eq_ok, bind_eq_ok, orRaise_eq_ok,
    exists_const, Prod.exists] at h
  obtain ⟨-,requested,hrequested,-,d,howner,type,state,-,o,-,-,priority,-,-,h⟩ := h
  obtain ⟨hd,-⟩ := retryOwner_ok howner (getDocumentForUpdate_ok hrequested).1
  cases type with
  | preflight =>
    simp only [bind_eq_ok, require_eq_ok, exists_const, Prod.exists, pure_eq_ok] at h
    obtain ⟨-,x,d',henqueue,rfl⟩ := h
    exact (CatalogRewrites.refl c).put hd
      (rewrites_enqueueOperation henqueue (Rewrites.of_operations rfl rfl))
  | publish =>
    simp only [bind_eq_ok] at h
    obtain ⟨d₁,hreset,h⟩ := h
    obtain ⟨p,-,rfl⟩ := resetPublication_ok hreset
    split at h
    · simp only [bind_eq_ok, Prod.exists, pure_eq_ok] at h
      obtain ⟨x,d',henqueue,rfl⟩ := h
      exact (CatalogRewrites.refl c).put hd
        (rewrites_enqueueOperation henqueue (Rewrites.of_operations rfl rfl))
    · simp only [bind_eq_ok, Prod.exists, pure_eq_ok] at h
      obtain ⟨t',hresume,x,d',henqueue,rfl⟩ := h
      obtain ⟨t,ht,hcases⟩ := resumeReplacementTarget_ok hresume
      have htt : Rewrites s now t t' := by
        rcases hcases with ⟨-,q,-,rfl⟩ | ⟨-,rfl⟩ <;> exact Rewrites.of_operations rfl rfl
      exact ((CatalogRewrites.refl c).put (Catalog.mem_of_document? ht) htt).put hd
        (rewrites_enqueueOperation henqueue (Rewrites.of_operations rfl rfl))
  | delete =>
    simp only [bind_eq_ok, orRaise_eq_ok, require_eq_ok, exists_const, Prod.exists,
      pure_eq_ok] at h
    obtain ⟨p,-,-,x,d',henqueue,rfl⟩ := h
    exact (CatalogRewrites.refl c).put hd
      (rewrites_enqueueOperation henqueue (Rewrites.of_operations rfl rfl))

theorem deleteDocument_rewrites {documentId : Uuid} {actorId : Text 255} {m : MutationOutcome}
    (h : deleteDocument s now documentId actorId c = .ok m) :
    CatalogRewrites s now c m.catalog := by
  simp only [deleteDocument, bind_eq_ok, orRaise_eq_ok] at h
  obtain ⟨d,-,definition,-,h⟩ := h
  obtain ⟨d₁,hd,-,hsame | ⟨-,target,revision,publication,d',-,hbegin,hput⟩⟩ := requestDeletion_ok h
  · rw [hsame]
    exact CatalogRewrites.refl c
  · rw [hput]
    exact (CatalogRewrites.refl c).put hd (rewrites_beginDeletion hbegin (Rewrites.refl d₁))

/-! ### Transactions of an execution -/

theorem Revises.rewrites (h : Revises c c') : CatalogRewrites s now c c' := by
  obtain ⟨d,revisions,hd,rfl⟩ := h
  exact (CatalogRewrites.refl c).put hd (Rewrites.of_operations rfl rfl)

theorem putDeletion_rewrites (hd : d ∈ c.documents) {phase : OperationPhase}
    (ho : o ∈ d.operations) (hrunning : o.state = .running) {f : Document → Document} {id : Uuid}
    (hf : ∀ t, (f t).id = t.id ∧ (f t).operations = t.operations) :
    CatalogRewrites s now c (putDeletion c d (setOperationPhase now o phase) id f) := by
  have hwritten : Rewrites s now d (d.putOperation (setOperationPhase now o phase)) :=
    (Rewrites.refl d).putOperation (written_of ho (Write.phase hrunning phase))
  have hput := (CatalogRewrites.refl c).put hd hwritten
  unfold putDeletion
  dsimp only
  split
  · exact hput
  · rename_i t ht
    rw [Catalog.document?_put] at ht
    split at ht
    · obtain rfl := Option.some.inj ht
      exact hput.put hd (hwritten.with_operations (hf _).1 (hf _).2)
    · exact hput.put (Catalog.mem_of_document? ht) (Rewrites.of_operations (hf t).1 (hf t).2)

theorem failOperation_rewrites {e : ServiceError} {u : Unit}
    (h : failOperation now ref e c = .ok (u,c')) : CatalogRewrites s now c c' := by
  simp only [failOperation] at h
  split at h
  · cases h
    exact CatalogRewrites.refl c
  · rename_i d o hfound
    split at h
    · cases h
      exact CatalogRewrites.refl c
    · rename_i hrunning
      simp only [Option.bind_eq_some_iff, Option.map_eq_some_iff, Prod.mk.injEq] at hfound
      obtain ⟨d₁,hd,o₁,ho,rfl,rfl⟩ := hfound
      have hmem := Catalog.mem_of_document? hd
      have hfailed : ∀ code message retryable, Rewrites s now d₁ (failPendingOutbox code message
          (failDocument o₁ code message retryable
            (d₁.putOperation (failedOperation now code message retryable o₁)))) := by
        intro code message retryable
        have hwritten : Written s now d₁ (failedOperation now code message retryable o₁) :=
          written_of (Table.mem_of_lookup ho)
            (Write.fail (not_not.1 hrunning) code message retryable)
        exact Rewrites.with_operations ((Rewrites.refl d₁).putOperation hwritten)
          failDocument_operations.1 failDocument_operations.2
      simp only [pure_eq_ok, Prod.mk.injEq] at h
      obtain ⟨-,rfl⟩ := h
      split
      · rename_i t _ ht
        obtain ⟨id,-,hlookup⟩ := Option.bind_eq_some_iff.1 ht
        refine CatalogRewrites.put (CatalogRewrites.put (CatalogRewrites.refl c)
          (Catalog.mem_of_document? hlookup) ?_) hmem (hfailed _ _ _)
        exact Rewrites.of_operations failReplacementTarget_operations.1
          failReplacementTarget_operations.2
      · exact (CatalogRewrites.refl c).put hmem (hfailed _ _ _)

/-- Every request of an execution writes rows as the vocabulary of writes has it. -/
theorem request_rewrites (hinv : CatalogInv s strands now c) (hclaimed : Claimed x c)
    {r : CatalogRequest} {a : r.Response} (hp : permitsCatalog s x K r)
    (h : r.run s enc now worker x.ref c = .ok (a,c')) : CatalogRewrites s now c c' := by
  have same : ∀ {α : Type} {y : Outcome α} {a : α}, reading y c = .ok (a,c') →
      CatalogRewrites s now c c' := by
    intro α y a hy
    rw [(reading_ok hy).1]
    exact CatalogRewrites.refl c
  -- a transaction that finds the operation running writes its row
  have own : ∀ {e : ServiceError} {d d' : Document} {o o' : WorkOperation},
      ownedOperation worker x.ref c e = .ok (d,o) → Rewrites s now d d' → Write s now o o' →
      CatalogRewrites s now c (c.put (d'.putOperation o')) := by
    intro e d d' o o' howned hr hw
    have ho := ownedOperation_ok howned
    exact (CatalogRewrites.refl c).put ho.document
      (hr.putOperation (written_of ho.operation hw))
  have index : ∀ {d d' : Document} {id : Uuid}, c.document? id = some d → d'.id = d.id →
      d'.operations = d.operations → CatalogRewrites s now c (c.put d') := by
    intro d d' id hd heq hops
    exact (CatalogRewrites.refl c).put (Catalog.mem_of_document? hd)
      (Rewrites.of_operations heq hops)
  cases r with
  | operationSnapshot | preflightSource | loadPreparedMarkdownPages | reconstructChunkPoints
  | latestMutableRevision | artifactSequence | catalogCandidateContext | classificationExcerpts
  | publicationBinding | deletionCheckpoint | deletionFlags | purgeBinding => exact same h
  | beginPreparation | recordExtraction | recordFormatting | recordChunkVectors
  | failPreparation | insertArtifact | recordPreflightCandidates | appendAdvisoryEvidence
  | sealPreparedRevision => exact (request_revises h rfl).rewrites
  | setPhase phase =>
    simp only [CatalogRequest.run, setPhase, bind_eq_ok, Prod.exists, pure_eq_ok,
      Prod.mk.injEq] at h
    obtain ⟨d,o,howned,-,rfl⟩ := h
    exact own howned (Rewrites.refl d) (Write.phase (ownedOperation_ok howned).running phase)
  | bindRevision id =>
    simp only [CatalogRequest.run, bindRevision, bind_eq_ok, orRaise_eq_ok, Prod.exists,
      pure_eq_ok, Prod.mk.injEq] at h
    obtain ⟨d,o,howned,r,-,-,rfl⟩ := h
    exact own howned (Rewrites.refl d) (Write.bind (ownedOperation_ok howned).running _)
  | failOperation e => exact failOperation_rewrites h
  | beginOutbox k n =>
    obtain ⟨d,d',hd,hrun,rfl⟩ := onDocument_ok h
    simp only [Worker.beginOutbox, bind_eq_ok, require_eq_ok, exists_const] at hrun
    obtain ⟨-,hrun⟩ := hrun
    split at hrun
    · simp only [pure_eq_ok, Prod.mk.injEq] at hrun
      obtain ⟨-,rfl⟩ := hrun
      exact index hd rfl rfl
    · simp only [bind_eq_ok, require_eq_ok, exists_const, pure_eq_ok, Prod.mk.injEq] at hrun
      obtain ⟨-,-,rfl⟩ := hrun
      exact index hd rfl rfl
  | completeOutbox k =>
    obtain ⟨d,d',hd,hrun,rfl⟩ := onDocument_ok h
    simp only [Worker.completeOutbox, bind_eq_ok, orRaise_eq_ok, require_eq_ok, exists_const,
      pure_eq_ok, Prod.mk.injEq] at hrun
    obtain ⟨e,-,-,-,rfl⟩ := hrun
    exact index hd rfl rfl
  | countDeletionAttempt id =>
    obtain ⟨d,d',hd,hrun,rfl⟩ := onDocument_ok h
    simp only [Worker.countDeletionAttempt, bind_eq_ok, orRaise_eq_ok, pure_eq_ok,
      Prod.mk.injEq] at hrun
    obtain ⟨p,-,-,rfl⟩ := hrun
    exact index hd rfl rfl
  | acceptRejection reason active =>
    simp only [CatalogRequest.run, acceptRejection, bind_eq_ok, Prod.exists, pure_eq_ok,
      Prod.mk.injEq] at h
    obtain ⟨d,o,howned,o₁,d',hqueue,-,rfl⟩ := h
    have ho := ownedOperation_ok howned
    have hbind : Write s now o {o with preparedRevisionId := (latestRevision d).map (·.id)} :=
      Write.bind ho.running _
    have hbound : Rewrites s now d (d.putOperation
        {o with preparedRevisionId := (latestRevision d).map (·.id)}) :=
      (Rewrites.refl d).putOperation (written_of ho.operation hbind)
    have hstate : (d.putOperation
        {o with preparedRevisionId := (latestRevision d).map (·.id)}).state = .preflighting :=
      ho.preflighting hinv ((hclaimed.type ho).trans hp.1.2.1)
    simp only [queueRejectionCleanup, hstate, reduceCtorEq, or_self, if_false, bind_eq_ok,
      require_eq_ok, exists_const, Prod.exists, pure_eq_ok, Prod.mk.injEq] at hqueue
    obtain ⟨-,o₂,d₂,hbegin,-,rfl⟩ := hqueue
    refine CatalogRewrites.put (CatalogRewrites.refl c) ho.document (Rewrites.putOperation
      ((rewrites_beginDeletion hbegin hbound).with_operations rfl rfl) ?_)
    have hrunning : ({o with preparedRevisionId := (latestRevision d).map (·.id)} :
        WorkOperation).state = .running := ho.running
    exact Or.inr ⟨o,ho.operation,(Relation.ReflTransGen.single hbind).tail
      (Write.succeed hrunning _)⟩
  | finishPreflight prepared =>
    simp only [CatalogRequest.run, finishPreflight, bind_eq_ok, orRaise_eq_ok, require_eq_ok,
      exists_const, Prod.exists] at h
    obtain ⟨d,o,howned,r,-,-,hstate,h⟩ := h
    have hrunning := (ownedOperation_ok howned).running
    split at h
    · simp only [queueClearPublication, hstate, reduceCtorEq, if_false, bind_eq_ok,
        require_eq_ok, exists_const, Prod.exists, pure_eq_ok, Prod.mk.injEq] at h
      obtain ⟨o₁,d',⟨-,d₁,hensure,henqueue⟩,-,rfl⟩ := h
      obtain ⟨hid,hops⟩ := ensurePublicationRecord_operations hensure
      have hr := rewrites_enqueueOperation (s := s) henqueue
        (Rewrites.of_operations (d := d) hid hops)
      exact own howned (hr.with_operations rfl rfl) (Write.succeed hrunning _)
    · simp only [pure_eq_ok, Prod.mk.injEq] at h
      obtain ⟨-,rfl⟩ := h
      exact own howned (Rewrites.of_operations rfl rfl) (Write.succeed hrunning _)
  | markUpserted id =>
    simp only [CatalogRequest.run, markUpserted, bind_eq_ok, orRaise_eq_ok, require_eq_ok,
      exists_const, Prod.exists, pure_eq_ok, Prod.mk.injEq] at h
    obtain ⟨d,o,howned,p,-,-,-,rfl⟩ := h
    exact (CatalogRewrites.refl c).put (ownedOperation_ok howned).document
      (Rewrites.of_operations rfl rfl)
  | finishPublication id n =>
    simp only [CatalogRequest.run, finishPublication, bind_eq_ok, orRaise_eq_ok, require_eq_ok,
      exists_const, Prod.exists] at h
    obtain ⟨d,o,howned,r,-,p,-,-,h⟩ := h
    have hsucceed : Write s now o (Worker.succeed now .complete o) :=
      Write.succeed (ownedOperation_ok howned).running _
    split at h
    · simp only [pure_eq_ok, Prod.mk.injEq, true_and] at h
      subst h
      exact own howned (Rewrites.of_operations rfl rfl) hsucceed
    · simp only [bind_eq_ok, require_eq_ok, exists_const, pure_eq_ok, Prod.mk.injEq,
        true_and] at h
      obtain ⟨-,rfl⟩ := h
      exact own howned (Rewrites.of_operations rfl rfl) hsucceed
  | setDeletionPhase id phase =>
    simp only [CatalogRequest.run, setDeletionPhase, bind_eq_ok, orRaise_eq_ok, require_eq_ok,
      exists_const, Prod.exists, pure_eq_ok, Prod.mk.injEq] at h
    obtain ⟨d,o,howned,t,-,p,-,-,-,rfl⟩ := h
    have ho := ownedOperation_ok howned
    exact putDeletion_rewrites ho.document ho.operation ho.running fun _ => ⟨rfl,rfl⟩
  | recordZeroVerification id target =>
    simp only [CatalogRequest.run, recordZeroVerification, bind_eq_ok, orRaise_eq_ok,
      Prod.exists] at h
    obtain ⟨d,o,howned,t,-,p,-,h⟩ := h
    have ho := ownedOperation_ok howned
    cases target with
    | active =>
      simp only [pure_eq_ok, Prod.mk.injEq] at h
      obtain ⟨-,rfl⟩ := h
      exact putDeletion_rewrites ho.document ho.operation ho.running fun _ => ⟨rfl,rfl⟩
    | screening =>
      simp only [bind_eq_ok, require_eq_ok, exists_const, pure_eq_ok, Prod.mk.injEq] at h
      obtain ⟨-,-,rfl⟩ := h
      exact putDeletion_rewrites ho.document ho.operation ho.running fun _ => ⟨rfl,rfl⟩
  | purgeContentRows id b =>
    simp only [CatalogRequest.run, purgeContentRows, bind_eq_ok, orRaise_eq_ok, require_eq_ok,
      exists_const, Prod.exists, pure_eq_ok, Prod.mk.injEq] at h
    obtain ⟨d,o,howned,t,-,p,-,-,-,rfl⟩ := h
    have ho := ownedOperation_ok howned
    exact putDeletion_rewrites ho.document ho.operation ho.running fun _ => ⟨rfl,rfl⟩
  | commitDeletion id =>
    simp only [CatalogRequest.run, commitDeletion, bind_eq_ok, orRaise_eq_ok, require_eq_ok,
      exists_const, Prod.exists, pure_eq_ok, Prod.mk.injEq] at h
    obtain ⟨d,o,howned,t,ht,p,-,-,t',hcommit,-,rfl⟩ := h
    have ho := ownedOperation_ok howned
    have hmem := Catalog.mem_of_document? ht
    have ht' : Rewrites s now t t' := by
      rcases commitTombstone_ok hcommit with ⟨rfl,-⟩ | ⟨-,q,y,-,-,-,-,rfl⟩ <;>
        exact Rewrites.of_operations rfl rfl
    refine CatalogRewrites.put (CatalogRewrites.refl c) hmem ?_
    split
    · rename_i hown
      obtain rfl := Table.eq_of_key_eq ho.document hmem
        (ho.documentId.trans (hown.2.trans (Catalog.id_of_document? ht).symm))
      exact ht'.putOperation (written_of ho.operation (Write.succeed ho.running _))
    · exact ht'

/-! ### Steps and runs -/

variable {w w' : World} {e : Event} {know : Slot → Knowledge} {P : World → Event → Prop}

theorem claimNext_rewrites {p p' : Worker.Process} {claimed : ClaimedOperation}
    (hinv : CatalogInv s strands now c) (h : claimNext s now p c = .ok (some claimed,p',c')) :
    CatalogRewrites s now c c' := by
  obtain ⟨d,o,o',hd,ho,hclaim,-,rfl,-,rfl⟩ := claimNext_ok hinv h
  simp only [claimable, Bool.and_eq_true, decide_eq_true_eq] at hclaim
  exact (CatalogRewrites.refl c).put hd
    ((Rewrites.refl d).putOperation (written_of ho (Write.claim hclaim.1.1 p.workerId)))

theorem recoverLease_writes (o : WorkOperation) :
    o = recoverLease now o ∨ Write s now o (recoverLease now o) := by
  unfold recoverLease
  split
  · rename_i h
    exact Or.inr (Write.recover h.1)
  · exact Or.inl rfl

theorem renewLease_writes (p : Worker.Process) (o : WorkOperation) :
    o = renewLease s now p o ∨ Write s now o (renewLease s now p o) := by
  unfold renewLease
  split
  · rename_i h
    exact Or.inr (Write.renew h.1)
  · exact Or.inl rfl

/-- Every event writes operations as the vocabulary of writes has it. -/
theorem apply_rewrites (h : WorldInv s True w know) (happly : w.apply s enc e = some w') :
    CatalogRewrites s w.shared.now w.shared.catalog w'.shared.catalog := by
  have same : CatalogRewrites s w.shared.now w.shared.catalog w.shared.catalog :=
    CatalogRewrites.refl _
  cases e with
  | upload y committed =>
    obtain ⟨m,hm,rfl⟩ := upload_ok happly
    cases committed with
    | true => exact registerAdmission_rewrites hm
    | false => exact same
  | decide y =>
    obtain ⟨c,hc,rfl⟩ := commit_ok happly
    obtain ⟨m,hm,rfl⟩ := runMutation_ok hc
    exact recordDecision_rewrites hm
  | retry id actor =>
    obtain ⟨c,hc,rfl⟩ := commit_ok happly
    obtain ⟨m,hm,rfl⟩ := runMutation_ok hc
    exact requestRetry_rewrites hm
  | delete id actor =>
    obtain ⟨c,hc,rfl⟩ := commit_ok happly
    obtain ⟨m,hm,rfl⟩ := runMutation_ok hc
    exact deleteDocument_rewrites hm
  | claim slot =>
    obtain ⟨-,claimed,p,c,hclaim,rfl⟩ := claim_ok happly
    exact claimNext_rewrites h.catalog hclaim
  | work slot i =>
    obtain ⟨claimed,r,k,a,σ,hslot,hexec,-,rfl⟩ := work_ok happly
    obtain ⟨hclaimed,-,hp,-⟩ := h.threads slot _ hslot
    show CatalogRewrites s w.shared.now w.shared.catalog σ.catalog
    cases r with
    | catalog r =>
      rcases exec_catalog hexec with ⟨b,c,hrun,rfl,rfl⟩ | ⟨e,rfl,rfl,-⟩
      · exact request_rewrites h.catalog hclaimed hp hrun
      · exact same
    | _ =>
      rw [(exec_other hexec fun q hq => by cases hq).1]
      exact same
  | recoverLeases =>
    cases happly
    exact CatalogRewrites.mapOperations _ recoverLease_writes
  | renewLeases =>
    cases happly
    exact CatalogRewrites.mapOperations _ (renewLease_writes w.shared.process)
  | wait n =>
    cases happly
    exact same
  | restart =>
    cases happly
    exact same

theorem step_rewrites (h : WorldInv s True w know) (hstep : w.step s enc e = some w') :
    CatalogRewrites s w.shared.now w.shared.catalog w'.shared.catalog := by
  unfold World.step at hstep
  obtain ⟨w₁,happly,rfl⟩ := Option.map_eq_some_iff.1 hstep
  show CatalogRewrites s w.shared.now w.shared.catalog w₁.shared.catalog
  exact apply_rewrites h happly

theorem Write.createdAt (h : Write s now o o') : o'.createdAt = o.createdAt := by
  cases h with
  | phase _ phase =>
    unfold setOperationPhase
    split <;> rfl
  | succeed _ phase =>
    unfold Worker.succeed setOperationPhase
    split <;> rfl
  | _ => rfl

/-- A property of operation rows, which may lapse no later than the clock, holds everywhere when the
new rows have it and every write to a row keeps it. -/
theorem ReachableBy.operationsAt {I : Time → WorkOperation → Prop} (h : ReachableBy s enc P w)
    (hlater : ∀ now now' o, now ≤ now' → I now o → I now' o)
    (hnew : ∀ now o, Enqueued now o → I now o)
    (hI : ∀ now o o', o.createdAt ≤ now → I now o → Write s now o o' → I now o') :
    ∀ d, d ∈ w.shared.catalog.documents → ∀ o, o ∈ d.operations → I w.shared.now o := by
  induction h with
  | initial => exact fun d hd => absurd hd (Table.not_mem_empty d)
  | @step w w' e h he hstep ih =>
    obtain ⟨know,hinv⟩ : ∃ know, WorldInv s True w know := h.inv fun _ _ _ _ => trivial
    intro d' hd' o' ho'
    apply hlater _ _ _ (step_now hinv hstep).le
    rcases step_rewrites hinv hstep d' hd' with hall | ⟨d,hd,hr⟩
    · exact hnew _ o' (hall o' ho')
    · rcases hr.operations o' ho' with hfresh | ⟨o,ho,hw⟩
      · exact hnew _ o' hfresh
      · have hcreated : o.createdAt ≤ w.shared.now :=
          ((hinv.catalog.documents d hd).operations.fresh o ho).le
        have hrow : I w.shared.now o' ∧ o'.createdAt = o.createdAt := by
          clear ho'
          induction hw with
          | refl => exact ⟨ih d hd o ho,rfl⟩
          | tail _ hwrite ihw =>
            obtain ⟨hrow,hsame⟩ := ihw
            exact ⟨hI _ _ _ (hsame ▸ hcreated) hrow hwrite,hwrite.createdAt.trans hsame⟩
        exact hrow.1

theorem ReachableBy.operations {I : WorkOperation → Prop} (h : ReachableBy s enc P w)
    (hnew : ∀ now o, Enqueued now o → I o)
    (hI : ∀ now o o', o.createdAt ≤ now → I o → Write s now o o' → I o') :
    ∀ d, d ∈ w.shared.catalog.documents → ∀ o, o ∈ d.operations → I o :=
  h.operationsAt (fun _ _ _ _ ho => ho) hnew hI

/-! ### The form of a row -/

/-- What a row holds in each state of its operation. -/
def RowShape (o : WorkOperation) : Prop :=
  match o.state with
  | .queued => o.workerId = none ∧ o.leaseExpiresAt = none ∧ o.completedAt = none ∧
      o.failureCode = none ∧ o.failureMessage = none
  | .running => o.workerId.isSome = true ∧ o.leaseExpiresAt.isSome = true ∧
      o.startedAt.isSome = true ∧ o.completedAt = none ∧ o.failureCode = none ∧
      o.failureMessage = none
  | .succeeded => o.workerId = none ∧ o.leaseExpiresAt = none ∧ o.startedAt.isSome = true ∧
      o.completedAt.isSome = true ∧ o.failureCode = none ∧ o.failureMessage = none ∧
      o.retryable = false
  | .failed => o.workerId = none ∧ o.leaseExpiresAt = none ∧ o.startedAt.isSome = true ∧
      o.completedAt.isSome = true ∧ o.failureCode.isSome = true ∧ o.failureMessage.isSome = true
  | .cancelled => False

structure RowValid (o : WorkOperation) : Prop where
  shape : RowShape o
  phaseStarted : o.createdAt ≤ o.phaseStartedAt

theorem Enqueued.rowValid (h : Enqueued now o) : RowValid o := by
  obtain ⟨d,type,priority,revisionId,target,phase,rfl⟩ := h
  exact ⟨⟨rfl,rfl,rfl,rfl,rfl⟩,le_refl now⟩

theorem RowValid.queued (h : RowValid o) (hs : o.state = .queued) : o.workerId = none ∧
    o.leaseExpiresAt = none ∧ o.completedAt = none ∧ o.failureCode = none ∧
    o.failureMessage = none := by
  have hshape := h.shape
  unfold RowShape at hshape
  rwa [hs] at hshape

theorem RowValid.running (h : RowValid o) (hs : o.state = .running) :
    o.workerId.isSome = true ∧ o.leaseExpiresAt.isSome = true ∧ o.startedAt.isSome = true ∧
    o.completedAt = none ∧ o.failureCode = none ∧ o.failureMessage = none := by
  have hshape := h.shape
  unfold RowShape at hshape
  rwa [hs] at hshape

theorem setOperationPhase_row (h : RowValid o) (hcreated : o.createdAt ≤ now)
    (phase : OperationPhase) : RowValid (setOperationPhase now o phase) := by
  unfold setOperationPhase
  split
  · exact h
  · exact ⟨h.shape,hcreated⟩

theorem setOperationPhase_running (hs : o.state = .running) (phase : OperationPhase) :
    (setOperationPhase now o phase).state = .running := by
  unfold setOperationPhase
  split <;> exact hs

/-- Every write keeps the form of a row. -/
theorem Write.rowValid (h : Write s now o o') (hcreated : o.createdAt ≤ now) (hrow : RowValid o) :
    RowValid o' := by
  cases h with
  | claim hs worker =>
    obtain ⟨-,-,hcompleted,hcode,hmessage⟩ := hrow.queued hs
    exact ⟨⟨rfl,rfl,rfl,hcompleted,hcode,hmessage⟩,hrow.phaseStarted⟩
  | recover hs =>
    obtain ⟨-,-,-,hcompleted,hcode,hmessage⟩ := hrow.running hs
    exact ⟨⟨rfl,rfl,hcompleted,hcode,hmessage⟩,hrow.phaseStarted⟩
  | renew hs =>
    obtain ⟨hworker,-,hstarted,hrest⟩ := hrow.running hs
    refine ⟨?_,hrow.phaseStarted⟩
    unfold RowShape
    rw [hs]
    exact ⟨hworker,rfl,hstarted,hrest⟩
  | phase hs phase => exact setOperationPhase_row hrow hcreated phase
  | bind hs id => exact ⟨hrow.shape,hrow.phaseStarted⟩
  | succeed hs phase =>
    have hphase := setOperationPhase_row hrow hcreated phase
    obtain ⟨-,-,hstarted,-,hcode,hmessage⟩ := hphase.running (setOperationPhase_running hs phase)
    exact ⟨⟨rfl,rfl,hstarted,rfl,hcode,hmessage,rfl⟩,hphase.phaseStarted⟩
  | fail hs code message retryable =>
    obtain ⟨-,-,hstarted,-⟩ := hrow.running hs
    exact ⟨⟨rfl,rfl,hstarted,rfl,rfl,rfl⟩,hrow.phaseStarted⟩

/-- Every operation row of a reachable catalog has the form of its state. -/
theorem ReachableBy.rowValid (h : ReachableBy s enc P w) (hd : d ∈ w.shared.catalog.documents)
    (ho : o ∈ d.operations) : RowValid o :=
  h.operations (fun _ _ hnew => hnew.rowValid)
    (fun _ _ _ hcreated hrow hwrite => hwrite.rowValid hcreated hrow) d hd o ho

end Lifecycle
end PdfBridge
