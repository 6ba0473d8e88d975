import PdfBridge.Lifecycle.Ownership
import PdfBridge.Managers.Fleet

/-! Leases between worker instances: which catalog transactions of an execution are fenced by the
worker id of its operation, and what the others can still change after the operation has been
claimed by another instance. -/
namespace PdfBridge
namespace Lifecycle
open Worker Api Intake Preparation

variable {s : Settings} {enc : Encoding} {strands : Prop} {now : Time} {worker : Uuid}
  {ref : OperationRef} {x : ClaimedOperation} {K : Knowledge} {c c' c₁ : Catalog}
  {d d' t : Document} {o o' : WorkOperation} {ids : Uuid → Prop}

/-! ### Owners -/

/-- The catalog runs the operation for this worker. -/
def owns (worker : Uuid) (ref : OperationRef) (c : Catalog) : Prop :=
  ∃ d o, c.document? ref.documentId = some d ∧ d.operation? ref.operationId = some o ∧
    o.state = .running ∧ o.workerId = some worker

theorem owns_of_ownedOperation {e : ServiceError}
    (h : ownedOperation worker ref c e = .ok (d,o)) : owns worker ref c := by
  simp only [ownedOperation, bind_eq_ok, orRaise_eq_ok, require_eq_ok, exists_const, pure_eq_ok,
    Prod.mk.injEq] at h
  obtain ⟨d₁,hd,o₁,ho,⟨hr,hw⟩,rfl,rfl⟩ := h
  exact ⟨d₁,o₁,hd,ho,hr,hw⟩

/-- An operation has no worker, or is in the state and with the worker that it had. -/
def Handed (d : Document) (o' : WorkOperation) : Prop :=
  o'.workerId = none ∨
  ∃ o, o ∈ d.operations ∧ o.id = o'.id ∧ o.workerId = o'.workerId ∧ o.state = o'.state

/-- The operations of a document have not gained a worker. -/
structure Hands (d d' : Document) : Prop where
  id : d'.id = d.id
  operations : ∀ o', o' ∈ d'.operations → Handed d o'

theorem Hands.of_operations (hid : d'.id = d.id) (h : d'.operations = d.operations) :
    Hands d d' := by
  refine ⟨hid,fun o' ho' => Or.inr ⟨o',?_,rfl,rfl,rfl⟩⟩
  rw [← h]
  exact ho'

theorem Hands.refl (d : Document) : Hands d d := Hands.of_operations rfl rfl

theorem Hands.putOperation (h : Hands d d') (ho : Handed d o) : Hands d (d'.putOperation o) := by
  refine ⟨h.id,fun o' ho' => ?_⟩
  rcases Table.mem_put.1 ho' with rfl | ⟨ho',-⟩
  · exact ho
  · exact h.operations o' ho'

/-- A document with the operations of one that has not gained a worker. -/
theorem Hands.with_operations {e : Document} (h : Hands d d') (hid : e.id = d'.id)
    (hops : e.operations = d'.operations) : Hands d e := by
  refine ⟨hid.trans h.id,fun o' ho' => h.operations o' ?_⟩
  rw [← hops]
  exact ho'

theorem handed_newOperation {e : Document} {type : OperationType} {priority : OperationPriority}
    {revisionId target : Option Uuid} {phase : OperationPhase} :
    Handed d (newOperation now e type priority revisionId target phase) := Or.inl rfl

theorem handed_succeed {phase : OperationPhase} : Handed d (succeed now phase o) := Or.inl rfl

theorem handed_setOperationPhase (ho : o ∈ d.operations) (phase : OperationPhase) :
    Handed d (setOperationPhase now o phase) := by
  refine Or.inr ⟨o,ho,?_⟩
  unfold setOperationPhase
  split <;> exact ⟨rfl,rfl,rfl⟩

/-- A transaction moves some documents, and gives no operation a worker. -/
structure Moves (ids : Uuid → Prop) (c c' : Catalog) : Prop where
  hands : ∀ d', d' ∈ c'.documents → (∀ o', o' ∈ d'.operations → o'.workerId = none) ∨
    ∃ d, d ∈ c.documents ∧ Hands d d'
  frame : ∀ id, ¬ ids id → c'.document? id = c.document? id

theorem Moves.refl (ids : Uuid → Prop) (c : Catalog) : Moves ids c c :=
  ⟨fun d hd => Or.inr ⟨d,hd,Hands.refl d⟩,fun _ _ => rfl⟩

theorem Moves.put (h : Moves ids c c₁) (hd : d ∈ c.documents) (hh : Hands d d')
    (hid : ids d.id) : Moves ids c (c₁.put d') := by
  constructor
  · intro e he
    rcases mem_put.1 he with rfl | ⟨he,-⟩
    · exact Or.inr ⟨d,hd,hh⟩
    · exact h.hands e he
  · intro id hn
    have hne : d'.id ≠ id := by
      rintro rfl
      exact hn (hh.id ▸ hid)
    rw [Catalog.document?_put_of_ne hne]
    exact h.frame id hn

/-- No worker becomes the owner of an operation. -/
theorem Moves.owns (h : Moves ids c c') (ho : owns worker ref c') : owns worker ref c := by
  obtain ⟨d',o',hd',ho',hr,hw⟩ := ho
  rcases h.hands d' (Catalog.mem_of_document? hd') with hn | ⟨d,hd,hh⟩
  · rw [hn o' (Table.mem_of_lookup ho')] at hw
    cases hw
  · rcases hh.operations o' (Table.mem_of_lookup ho') with hn | ⟨o,hm,hid,hw',hs⟩
    · rw [hn] at hw
      cases hw
    · have hdid := hh.id.symm.trans (Catalog.id_of_document? hd')
      have hoid := hid.trans (Table.key_of_lookup ho')
      refine ⟨d,o,?_,?_,hs.trans hr,hw'.trans hw⟩
      · rw [← hdid]
        exact Catalog.document?_of_mem hd
      · rw [← hoid]
        exact Table.lookup_of_mem hm

/-! ### Operator mutations -/

theorem hands_enqueueOperation {type : OperationType} {priority : OperationPriority}
    {revisionId target : Option Uuid} {phase : OperationPhase} {e : Document}
    (h : enqueueOperation now e type priority revisionId target phase = .ok (o,d'))
    (hh : Hands d e) : Hands d d' := by
  obtain ⟨-,-,-,-,rfl⟩ := enqueueOperation_ok h
  exact hh.putOperation handed_newOperation

theorem hands_beginDeletion {disposition : TerminalDisposition} {active screening : Text 255}
    {revisionId publicationId : Option Uuid} {e : Document}
    (h : beginDeletion now c e disposition active screening revisionId publicationId =
      .ok (o,d')) (hh : Hands d e) : Hands d d' := by
  simp only [beginDeletion, bind_eq_ok, require_eq_ok, exists_const] at h
  obtain ⟨-,-,-,h⟩ := h
  split at h
  · simp only [bind_eq_ok, require_eq_ok, orRaise_eq_ok, exists_const, pure_eq_ok,
      Prod.mk.injEq] at h
    obtain ⟨-,-,_,-,-,rfl⟩ := h
    exact hh
  · simp only [bind_eq_ok, require_eq_ok, exists_const] at h
    exact hands_enqueueOperation h.2 (hh.with_operations rfl rfl)

theorem ensurePublicationRecord_operations {r : PreparedRevision}
    (h : ensurePublicationRecord now d r = .ok d') :
    d'.id = d.id ∧ d'.operations = d.operations := by
  simp only [ensurePublicationRecord, bind_eq_ok, orRaise_eq_ok, require_eq_ok,
    exists_const] at h
  obtain ⟨-,points,-,h⟩ := h
  split at h
  · cases h
    exact ⟨rfl,rfl⟩
  · simp only [bind_eq_ok, require_eq_ok, exists_const, pure_eq_ok] at h
    obtain ⟨-,-,rfl⟩ := h
    exact ⟨rfl,rfl⟩

theorem registerAdmission_moves {y : PreparedAdmission} {m : MutationOutcome}
    (h : registerAdmission s now y c = .ok m) : Moves (fun _ => True) c m.catalog := by
  simp only [registerAdmission, bind_eq_ok, require_eq_ok, exists_const, Prod.exists,
    pure_eq_ok] at h
  obtain ⟨-,-,-,o,d,henqueue,rfl⟩ := h
  obtain ⟨-,-,-,-,rfl⟩ := enqueueOperation_ok henqueue
  refine ⟨fun e he => ?_,fun _ hn => absurd trivial hn⟩
  rcases mem_put.1 he with rfl | ⟨he,-⟩
  · refine Or.inl fun o' ho' => ?_
    rcases Table.mem_put.1 ho' with rfl | ⟨ho',-⟩
    · rfl
    · exact absurd ho' (Table.not_mem_empty o')
  · exact Or.inr ⟨e,he,Hands.refl e⟩

theorem recordDecision_moves {documentId revisionId : Uuid} {screening : Text 255}
    {action : DecisionAction} {targetId : Option Uuid} {idempotency : IdempotencyRecord}
    {actorId : Text 255} {m : MutationOutcome}
    (h : recordDecision now screening c documentId revisionId action targetId idempotency
      actorId = .ok m) : Moves (fun _ => True) c m.catalog := by
  simp only [recordDecision, requireReservation, require_eq_ok, bind_eq_ok, exists_const,
    Prod.exists] at h
  obtain ⟨-,d,hd,r,manifest,-,h⟩ := h
  have hmem := (getDocumentForUpdate_ok hd).1
  cases action with
  | replace =>
    simp only [bind_eq_ok, orRaise_eq_ok, Prod.exists, pure_eq_ok] at h
    obtain ⟨target,-,t,tr,tp,hvalid,o,i',t',hbegin,rfl⟩ := h
    obtain ⟨-,ht,-⟩ := validateReplacementTarget_ok hvalid
    simp only [beginReplacement, bind_eq_ok, require_eq_ok, exists_const, Prod.exists,
      pure_eq_ok, Prod.mk.injEq] at hbegin
    obtain ⟨-,-,i₁,hensure,o₁,i₂,henqueue,-,rfl,rfl⟩ := hbegin
    obtain ⟨hid,hops⟩ := ensurePublicationRecord_operations hensure
    have hi := hands_enqueueOperation henqueue (Hands.of_operations (d := d) hid hops)
    refine Moves.put (Moves.put (Moves.refl _ c) ht ?_ trivial) hmem hi trivial
    exact Hands.of_operations rfl rfl
  | cancel =>
    simp only [bind_eq_ok, require_eq_ok, exists_const, Prod.exists, pure_eq_ok] at h
    obtain ⟨-,o,d',hbegin,rfl⟩ := h
    exact (Moves.refl _ c).put hmem
      (hands_beginDeletion hbegin (Hands.of_operations rfl rfl)) trivial
  | keep =>
    simp only [bind_eq_ok, require_eq_ok, exists_const, Prod.exists, pure_eq_ok] at h
    obtain ⟨-,d₁,hensure,o,d',henqueue,rfl⟩ := h
    obtain ⟨hid,hops⟩ := ensurePublicationRecord_operations hensure
    exact (Moves.refl _ c).put hmem
      (hands_enqueueOperation henqueue (Hands.of_operations hid hops)) trivial

/-- The resumed operation of a failed document is a new one. -/
theorem requestRetry_moves {documentId : Uuid} {idempotency : IdempotencyRecord}
    {actorId : Text 255} {m : MutationOutcome}
    (h : requestRetry now c documentId idempotency actorId = .ok m) :
    Moves (fun _ => True) c m.catalog := by
  simp only [requestRetry, requireReservation, require_eq_ok, bind_eq_ok, orRaise_eq_ok,
    exists_const, Prod.exists] at h
  obtain ⟨-,requested,hrequested,-,d,howner,type,state,-,o,-,-,priority,-,-,h⟩ := h
  obtain ⟨hd,-⟩ := retryOwner_ok howner (getDocumentForUpdate_ok hrequested).1
  cases type with
  | preflight =>
    simp only [bind_eq_ok, require_eq_ok, exists_const, Prod.exists, pure_eq_ok] at h
    obtain ⟨-,x,d',henqueue,rfl⟩ := h
    exact (Moves.refl _ c).put hd
      (hands_enqueueOperation henqueue (Hands.of_operations rfl rfl)) trivial
  | publish =>
    simp only [bind_eq_ok] at h
    obtain ⟨d₁,hreset,h⟩ := h
    obtain ⟨p,-,rfl⟩ := resetPublication_ok hreset
    split at h
    · simp only [bind_eq_ok, Prod.exists, pure_eq_ok] at h
      obtain ⟨x,d',henqueue,rfl⟩ := h
      exact (Moves.refl _ c).put hd
        (hands_enqueueOperation henqueue (Hands.of_operations rfl rfl)) trivial
    · simp only [bind_eq_ok, Prod.exists, pure_eq_ok] at h
      obtain ⟨t',hresume,x,d',henqueue,rfl⟩ := h
      obtain ⟨t,ht,hcases⟩ := resumeReplacementTarget_ok hresume
      have htt : Hands t t' := by
        rcases hcases with ⟨-,q,-,rfl⟩ | ⟨-,rfl⟩ <;> exact Hands.of_operations rfl rfl
      exact ((Moves.refl _ c).put (Catalog.mem_of_document? ht) htt trivial).put hd
        (hands_enqueueOperation henqueue (Hands.of_operations rfl rfl)) trivial
  | delete =>
    simp only [bind_eq_ok, orRaise_eq_ok, require_eq_ok, exists_const, Prod.exists,
      pure_eq_ok] at h
    obtain ⟨p,-,-,x,d',henqueue,rfl⟩ := h
    exact (Moves.refl _ c).put hd
      (hands_enqueueOperation henqueue (Hands.of_operations rfl rfl)) trivial

theorem deleteDocument_moves {documentId : Uuid} {actorId : Text 255} {m : MutationOutcome}
    (h : deleteDocument s now documentId actorId c = .ok m) :
    Moves (fun _ => True) c m.catalog := by
  simp only [deleteDocument, bind_eq_ok, orRaise_eq_ok] at h
  obtain ⟨d,-,definition,-,h⟩ := h
  obtain ⟨d₁,hd,-,hsame | ⟨-,target,revision,publication,d',-,hbegin,hput⟩⟩ := requestDeletion_ok h
  · rw [hsame]
    exact Moves.refl _ c
  · rw [hput]
    exact (Moves.refl _ c).put hd (hands_beginDeletion hbegin (Hands.refl d₁)) trivial

/-! ### Transactions of an execution -/

/-- A transaction that does not look at the worker id and gets past its own checks, so that it
changes rows of the operation, the deletion checkpoint or the outbox. -/
def UnfencedWrite (c : Catalog) (ref : OperationRef) : CatalogRequest → Prop
  | .failOperation _ => ∃ d o, c.document? ref.documentId = some d ∧
      d.operation? ref.operationId = some o ∧ o.state = .running
  | .beginOutbox k n => ∃ d, c.document? k.documentId = some d ∧
      (d.revision? k.preparedRevisionId).isSome = true ∧
      ∀ e, d.outbox.find? k.names = some e → e.expectedPoints = n ∧ e.state ≠ .superseded
  | .completeOutbox k => ∃ d e, c.document? k.documentId = some d ∧
      d.outbox.find? k.names = some e ∧ e.state ≠ .superseded
  | .countDeletionAttempt id => ∃ d, c.document? id = some d ∧ d.deletionProgress.isSome = true
  | _ => False

theorem onDocument_ok {α : Type} {id : Uuid} {e : ServiceError}
    {f : Document → Outcome (α × Document)} {a : α} (h : onDocument c id e f = .ok (a,c')) :
    ∃ d d', c.document? id = some d ∧ f d = .ok (a,d') ∧ c' = c.put d' := by
  simp only [onDocument, bind_eq_ok, orRaise_eq_ok, Prod.exists, pure_eq_ok, Prod.mk.injEq] at h
  obtain ⟨d,hd,b,d',hrun,rfl,rfl⟩ := h
  exact ⟨d,d',hd,hrun,rfl⟩

/-- The stages of a preparation write prepared revisions alone. -/
def Revises (c c' : Catalog) : Prop :=
  ∃ d revisions, d ∈ c.documents ∧ c' = c.put {d with preparedRevisions := revisions}

theorem onDocument_revises {α : Type} {id : Uuid} {e : ServiceError}
    {f : Document → Outcome (α × Document)} {a : α} (h : onDocument c id e f = .ok (a,c'))
    (hf : ∀ d d', f d = .ok (a,d') → ∃ revisions, d' = {d with preparedRevisions := revisions}) :
    Revises c c' := by
  obtain ⟨d,d',hd,hrun,rfl⟩ := onDocument_ok h
  obtain ⟨revisions,rfl⟩ := hf d d' hrun
  exact ⟨d,revisions,Catalog.mem_of_document? hd,rfl⟩

theorem Revises.moves (h : Revises c c') : Moves (fun _ => True) c c' := by
  obtain ⟨d,revisions,hd,rfl⟩ := h
  exact (Moves.refl _ c).put hd (Hands.of_operations rfl rfl) trivial

/-- The cleanup of a document changes the phase of the operation and the checkpoint. -/
theorem putDeletion_moves (hd : d ∈ c.documents) (hid : ids d.id) {phase : OperationPhase}
    (ho : o ∈ d.operations) {f : Document → Document} {id : Uuid} (hids : ids id)
    (hf : ∀ t, (f t).id = t.id ∧ (f t).operations = t.operations) :
    Moves ids c (putDeletion c d (setOperationPhase now o phase) id f) := by
  have hhand : Handed d (setOperationPhase now o phase) := handed_setOperationPhase ho phase
  have hput := (Moves.refl ids c).put hd ((Hands.refl d).putOperation hhand) hid
  unfold putDeletion
  dsimp only
  split
  · exact hput
  · rename_i t ht
    rw [Catalog.document?_put] at ht
    split at ht
    · obtain rfl := Option.some.inj ht
      have hhands := (Hands.refl d).putOperation hhand
      exact hput.put hd (hhands.with_operations (hf _).1 (hf _).2) hid
    · have hid' := Catalog.id_of_document? ht
      exact hput.put (Catalog.mem_of_document? ht) (Hands.of_operations (hf t).1 (hf t).2)
        (hid'.symm ▸ hids)

theorem failDocument_operations {code : FailureCode} {message : Text 500} {retryable : Bool} :
    (failDocument o code message retryable d).id = d.id ∧
      (failDocument o code message retryable d).operations = d.operations := by
  have hp : (failPublication code o.preparedRevisionId d).id = d.id ∧
      (failPublication code o.preparedRevisionId d).operations = d.operations := by
    unfold failPublication
    split
    · exact ⟨rfl,rfl⟩
    · split <;> exact ⟨rfl,rfl⟩
  unfold failDocument
  split
  · exact ⟨rfl,rfl⟩
  · exact hp
  · exact ⟨rfl,rfl⟩

theorem failReplacementTarget_operations {code : FailureCode} {message : Text 500}
    {retryable : Bool} : (failReplacementTarget code message retryable t).id = t.id ∧
      (failReplacementTarget code message retryable t).operations = t.operations := by
  unfold failReplacementTarget
  split <;> exact ⟨rfl,rfl⟩

theorem failOperation_moves {e : ServiceError} {u : Unit}
    (h : failOperation now ref e c = .ok (u,c')) (hids : ∀ d o, c.document? ref.documentId = some d →
      d.operation? ref.operationId = some o → ∀ id, worksOn o id → ids id)
    (hself : ids ref.documentId) :
    c' = c ∨ (UnfencedWrite c ref (.failOperation e) ∧ Moves ids c c') := by
  simp only [failOperation] at h
  split at h
  · cases h
    exact Or.inl rfl
  · rename_i d o hfound
    split at h
    · cases h
      exact Or.inl rfl
    · rename_i hrunning
      simp only [Option.bind_eq_some_iff, Option.map_eq_some_iff, Prod.mk.injEq] at hfound
      obtain ⟨d₁,hd,o₁,ho,rfl,rfl⟩ := hfound
      refine Or.inr ⟨⟨d₁,o₁,hd,ho,not_not.1 hrunning⟩,?_⟩
      have hself' : ids d₁.id := (Catalog.id_of_document? hd).symm ▸ hself
      have hfailed : ∀ code message retryable, Hands d₁ (failPendingOutbox code message
          (failDocument o₁ code message retryable
            (d₁.putOperation (failedOperation now code message retryable o₁)))) :=
        fun code message retryable => Hands.with_operations
          (((Hands.refl d₁).putOperation (Or.inl rfl))) failDocument_operations.1
          failDocument_operations.2
      simp only [pure_eq_ok, Prod.mk.injEq] at h
      obtain ⟨-,rfl⟩ := h
      split
      · rename_i t _ ht
        obtain ⟨id,htarget,hlookup⟩ := Option.bind_eq_some_iff.1 ht
        have hid : ids t.id := by
          rw [Catalog.id_of_document? hlookup]
          exact hids d₁ o₁ hd ho id (Or.inr htarget)
        refine Moves.put (Moves.put (Moves.refl ids c) (Catalog.mem_of_document? hlookup) ?_ hid)
          (Catalog.mem_of_document? hd) (hfailed _ _ _) hself'
        exact Hands.of_operations failReplacementTarget_operations.1
          failReplacementTarget_operations.2
      · exact (Moves.refl ids c).put (Catalog.mem_of_document? hd) (hfailed _ _ _) hself'

/-- The requests of a preparation that write its revision. -/
def writesRevision : CatalogRequest → Bool
  | .beginPreparation _ | .recordExtraction _ _ | .recordFormatting _ _
  | .recordChunkVectors _ _ | .failPreparation _ _ _ | .insertArtifact _ _
  | .recordPreflightCandidates _ _ | .appendAdvisoryEvidence _ _
  | .sealPreparedRevision _ _ => true
  | _ => false

/-- Each of them rewrites one prepared revision of one document. -/
theorem request_revises {r : CatalogRequest} {a : r.Response}
    (h : r.run s enc now worker ref c = .ok (a,c')) (hr : writesRevision r = true) : Revises c c' := by
  cases r with
  | beginPreparation =>
    refine onDocument_revises h fun d d' hrun => ?_
    simp only [beginPreparation, bind_eq_ok, require_eq_ok, exists_const, pure_eq_ok,
      Prod.mk.injEq] at hrun
    obtain ⟨-,-,rfl⟩ := hrun
    exact ⟨_,rfl⟩
  | recordExtraction =>
    refine onDocument_revises h fun d d' hrun => ?_
    simp only [recordExtraction, bind_eq_ok, require_eq_ok, exists_const, pure_eq_ok,
      Prod.mk.injEq] at hrun
    obtain ⟨-,-,r,-,-,-,rfl⟩ := hrun
    exact ⟨_,rfl⟩
  | recordFormatting =>
    refine onDocument_revises h fun d d' hrun => ?_
    simp only [recordFormatting, bind_eq_ok, require_eq_ok, exists_const, pure_eq_ok,
      Prod.mk.injEq] at hrun
    obtain ⟨r,-,-,-,-,-,-,rfl⟩ := hrun
    exact ⟨_,rfl⟩
  | recordChunkVectors =>
    refine onDocument_revises h fun d d' hrun => ?_
    simp only [recordChunkVectors, bind_eq_ok, require_eq_ok, exists_const, pure_eq_ok,
      Prod.mk.injEq] at hrun
    obtain ⟨-,r,-,-,-,-,-,rfl⟩ := hrun
    exact ⟨_,rfl⟩
  | failPreparation =>
    refine onDocument_revises h fun d d' hrun => ?_
    simp only [Preparation.failPreparation, bind_eq_ok, require_eq_ok, exists_const, ite_eq_ok,
      pure_eq_ok, Prod.mk.injEq] at hrun
    obtain ⟨r,-,-,⟨-,-,rfl⟩ | ⟨-,-,rfl⟩⟩ := hrun <;> exact ⟨_,rfl⟩
  | insertArtifact =>
    refine onDocument_revises h fun d d' hrun => ?_
    simp only [Worker.insertArtifact, bind_eq_ok, orRaise_eq_ok, require_eq_ok, exists_const,
      pure_eq_ok, Prod.mk.injEq] at hrun
    obtain ⟨r,-,-,-,rfl⟩ := hrun
    exact ⟨_,rfl⟩
  | recordPreflightCandidates =>
    refine onDocument_revises h fun d d' hrun => ?_
    simp only [recordPreflightCandidates, bind_eq_ok, require_eq_ok, exists_const, pure_eq_ok,
      Prod.mk.injEq] at hrun
    obtain ⟨-,-,r,-,-,-,-,rows,-,-,rfl⟩ := hrun
    exact ⟨_,rfl⟩
  | appendAdvisoryEvidence =>
    refine onDocument_revises h fun d d' hrun => ?_
    simp only [appendAdvisoryEvidence, bind_eq_ok, require_eq_ok, exists_const, pure_eq_ok,
      Prod.mk.injEq] at hrun
    obtain ⟨r,-,-,rows,-,-,rfl⟩ := hrun
    exact ⟨_,rfl⟩
  | sealPreparedRevision =>
    refine onDocument_revises h fun d d' hrun => ?_
    obtain ⟨r,r',-,-,-,-,rfl,-⟩ := sealPreparedRevision_ok hrun
    exact ⟨_,rfl⟩
  | _ => cases hr

/-- What a permitted request can do: it reads, it writes a prepared revision, or it moves locked
documents on the strength of the lease or without looking at it. -/
theorem request_moves (hinv : CatalogInv s strands now c) (hclaimed : Claimed x c)
    {r : CatalogRequest} {a : r.Response} (hp : permitsCatalog s x K r)
    (h : r.run s enc now worker x.ref c = .ok (a,c')) :
    c' = c ∨ Revises c c' ∨ ((owns worker x.ref c ∨ UnfencedWrite c x.ref r) ∧
      Moves (· ∈ x.lockedDocumentIds) c c') := by
  have hself : x.documentId ∈ x.lockedDocumentIds := hclaimed.self_mem hinv
  have hworks : ∀ {d o id}, ClaimFits x c d o → worksOn o id → id ∈ x.lockedDocumentIds := by
    intro d o id hf hw
    refine (hf.mem_locked hinv).2 (hw.imp_left fun he => ?_)
    rw [← he, ← hf.documentId]
    exact ((hinv.documents d hf.document).operations.valid o hf.operation).document
  have hclean : ∀ {id}, cleans x id → id ∈ x.lockedDocumentIds := by
    rintro id (⟨-,rfl⟩ | ⟨-,-,hid⟩)
    · exact hself
    · exact hid
  have same : ∀ {α : Type} {y : Outcome α} {a : α}, reading y c = .ok (a,c') →
      c' = c ∨ Revises c c' ∨ ((owns worker x.ref c ∨ UnfencedWrite c x.ref r) ∧
        Moves (· ∈ x.lockedDocumentIds) c c') := fun hy => Or.inl (reading_ok hy).1
  -- an owned transaction moves the own document
  have own : ∀ {e : ServiceError} {d d' o}, ownedOperation worker x.ref c e = .ok (d,o) →
      Hands d d' → Moves (· ∈ x.lockedDocumentIds) c (c.put d') := by
    intro e d d' o ho hh
    have hown := ownedOperation_ok ho
    exact (Moves.refl _ c).put hown.document hh (hown.documentId ▸ hself)
  have index : ∀ {d d' : Document} {id}, c.document? id = some d → id ∈ x.lockedDocumentIds →
      d'.id = d.id → d'.operations = d.operations →
      Moves (· ∈ x.lockedDocumentIds) c (c.put d') := by
    intro d d' id hd hid heq hops
    exact (Moves.refl _ c).put (Catalog.mem_of_document? hd) (Hands.of_operations heq hops)
      ((Catalog.id_of_document? hd).symm ▸ hid)
  cases r with
  | operationSnapshot | preflightSource | loadPreparedMarkdownPages | reconstructChunkPoints
  | latestMutableRevision | artifactSequence | catalogCandidateContext | classificationExcerpts
  | publicationBinding | deletionCheckpoint | deletionFlags | purgeBinding => exact same h
  | beginPreparation | recordExtraction | recordFormatting | recordChunkVectors
  | failPreparation | insertArtifact | recordPreflightCandidates | appendAdvisoryEvidence
  | sealPreparedRevision => exact Or.inr (Or.inl (request_revises h rfl))
  | setPhase phase =>
    simp only [CatalogRequest.run, setPhase, bind_eq_ok, Prod.exists, pure_eq_ok,
      Prod.mk.injEq] at h
    obtain ⟨d,o,howned,-,rfl⟩ := h
    exact Or.inr (Or.inr ⟨Or.inl (owns_of_ownedOperation howned),own howned
      ((Hands.refl d).putOperation
        (handed_setOperationPhase (ownedOperation_ok howned).operation phase))⟩)
  | bindRevision id =>
    simp only [CatalogRequest.run, bindRevision, bind_eq_ok, orRaise_eq_ok, Prod.exists,
      pure_eq_ok, Prod.mk.injEq] at h
    obtain ⟨d,o,howned,r,-,-,rfl⟩ := h
    exact Or.inr (Or.inr ⟨Or.inl (owns_of_ownedOperation howned),own howned
      ((Hands.refl d).putOperation
        (Or.inr ⟨o,(ownedOperation_ok howned).operation,rfl,rfl,rfl⟩))⟩)
  | failOperation e =>
    have hids : ∀ d o, c.document? x.ref.documentId = some d →
        d.operation? x.ref.operationId = some o → ∀ id, worksOn o id →
        id ∈ x.lockedDocumentIds := by
      intro d o hd ho id hw
      obtain ⟨d₁,o₁,hf⟩ := hclaimed
      cases Table.eq_of_key_eq hf.document (Catalog.mem_of_document? hd)
        (hf.documentId.trans (Catalog.id_of_document? hd).symm)
      cases Table.eq_of_key_eq hf.operation (Table.mem_of_lookup ho)
        (hf.operationId.trans (Table.key_of_lookup ho).symm)
      exact hworks hf hw
    rcases failOperation_moves h hids hself with hsame | hmoves
    · exact Or.inl hsame
    · exact Or.inr (Or.inr ⟨Or.inr hmoves.1,hmoves.2⟩)
  | beginOutbox k n =>
    obtain ⟨d,d',hd,hrun,rfl⟩ := onDocument_ok h
    simp only [Worker.beginOutbox, bind_eq_ok, require_eq_ok, exists_const] at hrun
    obtain ⟨hrevision,hrun⟩ := hrun
    split at hrun
    · rename_i hnone
      simp only [pure_eq_ok, Prod.mk.injEq] at hrun
      obtain ⟨-,rfl⟩ := hrun
      refine Or.inr (Or.inr ⟨Or.inr ⟨d,hd,hrevision,fun e he => ?_⟩,index hd hp.2 rfl rfl⟩)
      rw [hnone] at he
      cases he
    · rename_i e hfound
      simp only [bind_eq_ok, require_eq_ok, exists_const, pure_eq_ok, Prod.mk.injEq] at hrun
      obtain ⟨hbinding,-,rfl⟩ := hrun
      refine Or.inr (Or.inr ⟨Or.inr ⟨d,hd,hrevision,fun e' he => ?_⟩,index hd hp.2 rfl rfl⟩)
      rw [hfound] at he
      cases he
      exact hbinding
  | completeOutbox k =>
    obtain ⟨d,d',hd,hrun,rfl⟩ := onDocument_ok h
    simp only [Worker.completeOutbox, bind_eq_ok, orRaise_eq_ok, require_eq_ok, exists_const,
      pure_eq_ok, Prod.mk.injEq] at hrun
    obtain ⟨e,he,hstate,-,rfl⟩ := hrun
    exact Or.inr (Or.inr ⟨Or.inr ⟨d,e,hd,he,hstate⟩,index hd hp.2 rfl rfl⟩)
  | countDeletionAttempt id =>
    obtain ⟨d,d',hd,hrun,rfl⟩ := onDocument_ok h
    simp only [Worker.countDeletionAttempt, bind_eq_ok, orRaise_eq_ok, pure_eq_ok,
      Prod.mk.injEq] at hrun
    obtain ⟨p,hprogress,-,rfl⟩ := hrun
    exact Or.inr (Or.inr ⟨Or.inr ⟨d,hd,by rw [hprogress]; rfl⟩,
      index hd (hclean hp.2) rfl rfl⟩)
  | acceptRejection reason active =>
    simp only [CatalogRequest.run, acceptRejection, bind_eq_ok, Prod.exists, pure_eq_ok,
      Prod.mk.injEq] at h
    obtain ⟨d,o,howned,o₁,d',hqueue,-,rfl⟩ := h
    refine Or.inr (Or.inr ⟨Or.inl (owns_of_ownedOperation howned),own howned
      (Hands.putOperation ?_ handed_succeed)⟩)
    have hbound : Hands d (d.putOperation
        {o with preparedRevisionId := (latestRevision d).map (·.id)}) :=
      (Hands.refl d).putOperation (Or.inr ⟨o,(ownedOperation_ok howned).operation,rfl,rfl,rfl⟩)
    have ho := ownedOperation_ok howned
    have hstate : (d.putOperation
        {o with preparedRevisionId := (latestRevision d).map (·.id)}).state = .preflighting :=
      ho.preflighting hinv ((hclaimed.type ho).trans hp.1.2.1)
    simp only [queueRejectionCleanup, hstate, reduceCtorEq, or_self, if_false, bind_eq_ok,
      require_eq_ok, exists_const, Prod.exists, pure_eq_ok, Prod.mk.injEq] at hqueue
    obtain ⟨-,o₂,d₂,hbegin,-,rfl⟩ := hqueue
    exact (hands_beginDeletion hbegin hbound).with_operations rfl rfl
  | finishPreflight prepared =>
    simp only [CatalogRequest.run, finishPreflight, bind_eq_ok, orRaise_eq_ok, require_eq_ok,
      exists_const, Prod.exists] at h
    obtain ⟨d,o,howned,r,-,-,hstate,h⟩ := h
    refine Or.inr (Or.inr ⟨Or.inl (owns_of_ownedOperation howned),?_⟩)
    split at h
    · simp only [queueClearPublication, hstate, reduceCtorEq, if_false, bind_eq_ok,
        require_eq_ok, exists_const, Prod.exists, pure_eq_ok, Prod.mk.injEq] at h
      obtain ⟨o₁,d',⟨-,d₁,hensure,henqueue⟩,-,rfl⟩ := h
      obtain ⟨hid,hops⟩ := ensurePublicationRecord_operations hensure
      have hh := hands_enqueueOperation henqueue (Hands.of_operations (d := d) hid hops)
      exact own howned (Hands.putOperation (hh.with_operations rfl rfl) handed_succeed)
    · simp only [pure_eq_ok, Prod.mk.injEq] at h
      obtain ⟨-,rfl⟩ := h
      exact own howned (Hands.putOperation (Hands.of_operations rfl rfl) handed_succeed)
  | markUpserted id =>
    simp only [CatalogRequest.run, markUpserted, bind_eq_ok, orRaise_eq_ok, require_eq_ok,
      exists_const, Prod.exists, pure_eq_ok, Prod.mk.injEq] at h
    obtain ⟨d,o,howned,p,-,-,-,rfl⟩ := h
    exact Or.inr (Or.inr ⟨Or.inl (owns_of_ownedOperation howned),own howned
      (Hands.of_operations rfl rfl)⟩)
  | finishPublication id n =>
    simp only [CatalogRequest.run, finishPublication, bind_eq_ok, orRaise_eq_ok, require_eq_ok,
      exists_const, Prod.exists] at h
    obtain ⟨d,o,howned,r,-,p,-,-,h⟩ := h
    refine Or.inr (Or.inr ⟨Or.inl (owns_of_ownedOperation howned),?_⟩)
    split at h
    · simp only [pure_eq_ok, Prod.mk.injEq, true_and] at h
      subst h
      exact own howned (Hands.putOperation (Hands.of_operations rfl rfl) handed_succeed)
    · simp only [bind_eq_ok, require_eq_ok, exists_const, pure_eq_ok, Prod.mk.injEq,
        true_and] at h
      obtain ⟨-,rfl⟩ := h
      exact own howned (Hands.putOperation (Hands.of_operations rfl rfl) handed_succeed)
  | setDeletionPhase id phase =>
    simp only [CatalogRequest.run, setDeletionPhase, bind_eq_ok, orRaise_eq_ok, require_eq_ok,
      exists_const, Prod.exists, pure_eq_ok, Prod.mk.injEq] at h
    obtain ⟨d,o,howned,t,-,p,-,-,-,rfl⟩ := h
    have ho := ownedOperation_ok howned
    exact Or.inr (Or.inr ⟨Or.inl (owns_of_ownedOperation howned),putDeletion_moves ho.document
      (ho.documentId ▸ hself) ho.operation (hclean hp.2) fun _ => ⟨rfl,rfl⟩⟩)
  | recordZeroVerification id target =>
    simp only [CatalogRequest.run, recordZeroVerification, bind_eq_ok, orRaise_eq_ok,
      Prod.exists] at h
    obtain ⟨d,o,howned,t,-,p,-,h⟩ := h
    have ho := ownedOperation_ok howned
    refine Or.inr (Or.inr ⟨Or.inl (owns_of_ownedOperation howned),?_⟩)
    cases target with
    | active =>
      simp only [pure_eq_ok, Prod.mk.injEq] at h
      obtain ⟨-,rfl⟩ := h
      exact putDeletion_moves ho.document (ho.documentId ▸ hself) ho.operation
        (hclean hp.1.2) fun _ => ⟨rfl,rfl⟩
    | screening =>
      simp only [bind_eq_ok, require_eq_ok, exists_const, pure_eq_ok, Prod.mk.injEq] at h
      obtain ⟨-,-,rfl⟩ := h
      exact putDeletion_moves ho.document (ho.documentId ▸ hself) ho.operation
        (hclean hp.1.2) fun _ => ⟨rfl,rfl⟩
  | purgeContentRows id b =>
    simp only [CatalogRequest.run, purgeContentRows, bind_eq_ok, orRaise_eq_ok, require_eq_ok,
      exists_const, Prod.exists, pure_eq_ok, Prod.mk.injEq] at h
    obtain ⟨d,o,howned,t,-,p,-,-,-,rfl⟩ := h
    have ho := ownedOperation_ok howned
    exact Or.inr (Or.inr ⟨Or.inl (owns_of_ownedOperation howned),putDeletion_moves ho.document
      (ho.documentId ▸ hself) ho.operation (hclean hp.1.2) fun _ => ⟨rfl,rfl⟩⟩)
  | commitDeletion id =>
    simp only [CatalogRequest.run, commitDeletion, bind_eq_ok, orRaise_eq_ok, require_eq_ok,
      exists_const, Prod.exists, pure_eq_ok, Prod.mk.injEq] at h
    obtain ⟨d,o,howned,t,ht,p,-,-,t',hcommit,-,rfl⟩ := h
    refine Or.inr (Or.inr ⟨Or.inl (owns_of_ownedOperation howned),?_⟩)
    have hids : t.id ∈ x.lockedDocumentIds :=
      (Catalog.id_of_document? ht).symm ▸ hclean hp.2
    have ht' : Hands t t' := by
      rcases commitTombstone_ok hcommit with ⟨rfl,-⟩ | ⟨-,q,y,-,-,-,-,rfl⟩ <;>
        exact Hands.of_operations rfl rfl
    refine (Moves.refl _ c).put (Catalog.mem_of_document? ht) ?_ hids
    split
    · exact ht'.putOperation handed_succeed
    · exact ht'

/-! ### Events of one instance -/

theorem Moves.mapOperations {f : WorkOperation → WorkOperation} (hf : ∀ o, (f o).id = o.id)
    (hh : ∀ d o, o ∈ d.operations → Handed d (f o)) :
    Moves (fun _ => True) c (Catalog.mapOperations c f hf) := by
  refine ⟨fun d' hd' => ?_,fun _ hn => absurd trivial hn⟩
  obtain ⟨d,hd,rfl⟩ := mem_mapOperations.1 hd'
  refine Or.inr ⟨d,hd,rfl,fun o' ho' => ?_⟩
  obtain ⟨o,ho,rfl⟩ := List.mem_map.1 ho'
  exact hh d o ho

theorem handed_recoverLease (ho : o ∈ d.operations) : Handed d (recoverLease now o) := by
  unfold recoverLease
  split
  · exact Or.inl rfl
  · exact Or.inr ⟨o,ho,rfl,rfl,rfl⟩

theorem handed_renewLease {p : Worker.Process} (ho : o ∈ d.operations) :
    Handed d (renewLease s now p o) := by
  unfold renewLease
  split <;> exact Or.inr ⟨o,ho,rfl,rfl,rfl⟩

variable {w w' : World} {e : Event} {know : Slot → Knowledge}

/-- The event is a claim, and the operation is the one that it finds. -/
def Claims (s : Settings) (w : World) (ref : OperationRef) : Event → Prop
  | .claim _ => ∃ claimed p c, claimNext s w.shared.now w.shared.process w.shared.catalog =
      .ok (some claimed,p,c) ∧ claimed.ref = ref
  | _ => False

def Restarts : Event → Prop
  | .restart => True
  | _ => False

theorem exec_process {i : Input} {σ σ' : Shared} {r : Request}
    {a : Except ServiceError r.Response} (h : exec s enc ref i σ r = some (a,σ')) :
    σ'.process.workerId = σ.process.workerId := by
  cases r with
  | catalog q =>
    rcases exec_catalog h with ⟨b,c,-,-,rfl⟩ | ⟨e,-,rfl,-⟩ <;> rfl
  | points q =>
    rcases exec_points h with ⟨b,-,-,rfl⟩ | ⟨e,-,rfl | rfl⟩ <;> rfl
  | files q =>
    rcases exec_files h with ⟨b,-,-,rfl⟩ | ⟨e,-,rfl | rfl⟩ <;> rfl
  | provider q =>
    simp only [exec, Option.map_eq_some_iff] at h
    obtain ⟨b,-,hb⟩ := h
    cases hb
    rfl
  | release claimed =>
    cases h
    rfl
  | raise e =>
    cases h
    rfl

/-- Only a claim makes a worker the owner of an operation, and it makes the claiming one. -/
theorem apply_owns (h : WorldInv s True w know) (happly : w.apply s enc e = some w')
    (he : ¬ Restarts e) : w'.shared.process.workerId = w.shared.process.workerId ∧
      (owns worker ref w'.shared.catalog → owns worker ref w.shared.catalog ∨
        (worker = w.shared.process.workerId ∧ Claims s w ref e)) := by
  have mutation : ∀ {y : Outcome Catalog}, w.commit y = some w' →
      (∀ c, y = .ok c → Moves (fun _ => True) w.shared.catalog c) →
      w'.shared.process.workerId = w.shared.process.workerId ∧
      (owns worker ref w'.shared.catalog → owns worker ref w.shared.catalog ∨
        (worker = w.shared.process.workerId ∧ Claims s w ref e)) := by
    intro y hy hmoves
    obtain ⟨c,hc,rfl⟩ := commit_ok hy
    exact ⟨rfl,fun ho => Or.inl ((hmoves c hc).owns ho)⟩
  cases e with
  | upload y committed =>
    obtain ⟨m,hm,rfl⟩ := upload_ok happly
    refine ⟨rfl,fun ho => Or.inl ?_⟩
    cases committed with
    | true => exact (registerAdmission_moves hm).owns ho
    | false => exact ho
  | decide y =>
    refine mutation happly fun c hc => ?_
    obtain ⟨m,hm,rfl⟩ := runMutation_ok hc
    exact recordDecision_moves hm
  | retry id actor =>
    refine mutation happly fun c hc => ?_
    obtain ⟨m,hm,rfl⟩ := runMutation_ok hc
    exact requestRetry_moves hm
  | delete id actor =>
    refine mutation happly fun c hc => ?_
    obtain ⟨m,hm,rfl⟩ := runMutation_ok hc
    exact deleteDocument_moves hm
  | claim slot =>
    obtain ⟨-,claimed,p,c,hclaim,rfl⟩ := claim_ok happly
    obtain ⟨d,o,o',hd,ho,-,hx,ho',hp,rfl⟩ := claimNext_ok h.catalog hclaim
    refine ⟨by rw [hp]; rfl,fun hown => ?_⟩
    obtain ⟨d₁,o₁,hd₁,ho₁,hr,hw⟩ := hown
    change (w.shared.catalog.put (d.putOperation o')).document? ref.documentId = some d₁ at hd₁
    rw [Catalog.document?_put] at hd₁
    split at hd₁
    · rename_i hid
      obtain rfl := Option.some.inj hd₁
      change (d.operations.put o').lookup ref.operationId = some o₁ at ho₁
      rw [Table.lookup_put] at ho₁
      split at ho₁
      · rename_i hoid
        obtain rfl := Option.some.inj ho₁
        have hworker : some w.shared.process.workerId = some worker := by
          rw [← hw, ho']
        refine Or.inr ⟨(Option.some.inj hworker).symm,claimed,p,_,hclaim,?_⟩
        have hoid' : o.id = ref.operationId := by rw [← hoid, ho']
        have hdid : d.id = ref.documentId := hid
        rw [hx]
        show (⟨o.id,d.id⟩ : OperationRef) = ref
        rw [hoid', hdid]
      · refine Or.inl ⟨d,o₁,?_,ho₁,hr,hw⟩
        have hdid : d.id = ref.documentId := hid
        rw [← hdid]
        exact Catalog.document?_of_mem hd
    · exact Or.inl ⟨d₁,o₁,hd₁,ho₁,hr,hw⟩
  | work slot i =>
    obtain ⟨claimed,r,k,a,σ,hslot,hexec,-,rfl⟩ := work_ok happly
    obtain ⟨hclaimed,-,hp,-⟩ := h.threads slot _ hslot
    refine ⟨exec_process hexec,fun ho => Or.inl ?_⟩
    change owns worker ref σ.catalog at ho
    cases r with
    | catalog r =>
      rcases exec_catalog hexec with ⟨b,c,hrun,rfl,rfl⟩ | ⟨e,rfl,rfl,-⟩
      · rcases request_moves h.catalog hclaimed hp hrun with hc | hc | ⟨-,hc⟩
        · change owns worker ref c at ho
          rw [hc] at ho
          exact ho
        · exact hc.moves.owns ho
        · exact hc.owns ho
      · exact ho
    | _ =>
      rw [(exec_other hexec fun q hq => by cases hq).1] at ho
      exact ho
  | recoverLeases =>
    cases happly
    exact ⟨rfl,fun ho => Or.inl ((Moves.mapOperations _
      fun _ _ hm => handed_recoverLease hm).owns ho)⟩
  | renewLeases =>
    cases happly
    exact ⟨rfl,fun ho => Or.inl ((Moves.mapOperations _
      fun _ _ hm => handed_renewLease hm).owns ho)⟩
  | wait n =>
    cases happly
    exact ⟨rfl,Or.inl⟩
  | restart => exact absurd trivial he

/-! ### What a transaction leaves alone -/

/-- The rows of a document apart from its prepared revisions. -/
def workRows (d : Document) : Document := {d with preparedRevisions := ∅}

/-- The operation, and the documents, publications, checkpoints and outbox entries that it works
on, stay as they are. -/
def KeepsRows (ref : OperationRef) (c c' : Catalog) : Prop :=
  ∀ d o, c.document? ref.documentId = some d → d.operation? ref.operationId = some o →
    ∀ id, worksOn o id → (c'.document? id).map workRows = (c.document? id).map workRows

theorem KeepsRows.refl (ref : OperationRef) (c : Catalog) : KeepsRows ref c c :=
  fun _ _ _ _ _ _ => rfl

theorem Revises.keepsRows (h : Revises c c') : KeepsRows ref c c' := by
  obtain ⟨d₁,revisions,hd₁,rfl⟩ := h
  intro d o _ _ id _
  rw [Catalog.document?_put]
  split
  · rename_i hid
    rw [← show d₁.id = id from hid, Catalog.document?_of_mem hd₁]
    rfl
  · rfl

/-- Two open operations work on different documents. -/
theorem CatalogInv.disjoint (h : CatalogInv s True now c) (hd : d ∈ c.documents)
    (ho : o ∈ d.operations) (hopen : o.isOpen = true) (ht : t ∈ c.documents)
    (ho' : o' ∈ t.operations) (hopen' : o'.isOpen = true) (hne : o ≠ o') {id : Uuid}
    (hw : worksOn o id) (hw' : worksOn o' id) : False := by
  have found : ∀ {d : Document} {o}, d ∈ c.documents → o ∈ d.operations → worksOn o id →
      ∃ u, u ∈ c.documents ∧ u.id = id ∧ (u = d ∨ (o.operationType = .publish ∧
        o.replacementTargetDocumentId = some u.id ∧ u.replacedByDocumentId = some d.id)) := by
    intro d o hd ho hw
    have hvalid := (h.documents d hd).operations.valid o ho
    rcases hw with hown | htarget
    · exact ⟨d,hd,hvalid.document.symm.trans hown,Or.inl rfl⟩
    · obtain ⟨u,hu,hid,hr⟩ := h.link.replaced d hd id ⟨o,ho,htarget⟩
      exact ⟨u,hu,hid,Or.inr ⟨hvalid.publish_of_target htarget,hid ▸ htarget,hr⟩⟩
  have self : ∀ {d : Document} {o}, d ∈ c.documents → o ∈ d.operations → o.isOpen = true →
      Owner c d o := fun hd ho hopen => ⟨_,hd,ho,hopen,Or.inl rfl⟩
  obtain ⟨u,hu,huid,hcase⟩ := found hd ho hw
  obtain ⟨v,hv,hvid,hcase'⟩ := found ht ho' hw'
  cases Table.eq_of_key_eq hu hv (huid.trans hvid.symm)
  by_cases hstate : u.state = .deleted
  · -- a deleted document has no open operation, and was replaced by one document at most
    have idle : ∀ {o}, o ∈ u.operations → o.isOpen = true → False := by
      intro o ho hopen
      have := h.busy_of_owner hu (self hu ho hopen)
      rw [hstate] at this
      cases this
    rcases hcase with rfl | ⟨-,-,hr⟩
    · exact idle ho hopen
    · rcases hcase' with rfl | ⟨-,-,hr'⟩
      · exact idle ho' hopen'
      · cases Table.eq_of_key_eq hd ht (Option.some.inj (hr.symm.trans hr'))
        exact hne (h.owner_unique hd (self hd ho hopen) (self hd ho' hopen'))
  · have owner : ∀ {d : Document} {o}, d ∈ c.documents → o ∈ d.operations →
        o.isOpen = true → (u = d ∨ (o.operationType = .publish ∧
          o.replacementTargetDocumentId = some u.id ∧ u.replacedByDocumentId = some d.id)) →
        Owner c u o := by
      intro d o hd ho hopen hcase
      rcases hcase with rfl | ⟨htype,htarget,-⟩
      · exact self hd ho hopen
      · exact ⟨d,hd,ho,hopen,Or.inr ⟨htype,htarget,hstate⟩⟩
    exact hne (h.owner_unique hu (owner hd ho hopen hcase) (owner ht ho' hopen' hcase'))

theorem mapOperations_keepsRows {f : WorkOperation → WorkOperation}
    {hf : ∀ o, (f o).id = o.id} {id : Uuid}
    (h : ∀ d, d ∈ c.documents → d.id = id → ∀ o, o ∈ d.operations → f o = o) :
    (Catalog.mapOperations c f hf).document? id = c.document? id := by
  refine (Table.lookup_update c.documents (fun d => Document.mapOperations d f hf) (fun _ => rfl)
    id).trans ?_
  change (c.documents.lookup id).map _ = c.documents.lookup id
  cases hd : c.documents.lookup id with
  | none => rfl
  | some d =>
    refine congrArg some ?_
    have hsame : d.operations.update f hf = d.operations := by
      refine Table.ext_rows ((List.map_congr_left fun o ho => ?_).trans (List.map_id _))
      exact h d (Table.mem_of_lookup hd) (Table.key_of_lookup hd) o ho
    exact congrArg (fun operations => ({d with operations := operations} : Document)) hsame

/-! ### The fence -/

/-- Another worker runs the operation under a lease that has not expired. -/
def LeasedElsewhere (w : World) (ref : OperationRef) : Prop :=
  ∃ d o, w.shared.catalog.document? ref.documentId = some d ∧
    d.operation? ref.operationId = some o ∧ o.state = .running ∧
    o.workerId ≠ some w.shared.process.workerId ∧
    o.leaseExpiresAt.any (· ≤ w.shared.now) = false

/-- No execution makes an unfenced write for an operation that its worker does not own. -/
def Fenced (w : World) : Event → Prop
  | .work slot .proceed => ∀ x r k, w.slots slot = some ⟨x,.call (.catalog r) k⟩ →
      owns w.shared.process.workerId x.ref w.shared.catalog ∨
      ¬ UnfencedWrite w.shared.catalog x.ref r
  | _ => True

/-- The transactions of a former owner: those of its execution of the operation, and every
transaction of its slots and its heartbeat while another worker holds the lease. -/
def FormerTransaction (w : World) (ref : OperationRef) : Event → Prop
  | .work slot _ => (∃ t, w.slots slot = some t ∧ t.claimed.ref = ref) ∨ LeasedElsewhere w ref
  | .claim _ | .recoverLeases | .renewLeases => LeasedElsewhere w ref
  | _ => False

/-- An operation that another worker runs, as an open operation of its document. -/
theorem LeasedElsewhere.row (h : LeasedElsewhere w ref)
    (hd : w.shared.catalog.document? ref.documentId = some d)
    (ho : d.operation? ref.operationId = some o) :
    d ∈ w.shared.catalog.documents ∧ o ∈ d.operations ∧ o.isOpen = true ∧
      o.state = .running ∧ o.workerId ≠ some w.shared.process.workerId ∧
      o.leaseExpiresAt.any (· ≤ w.shared.now) = false := by
  obtain ⟨d₁,o₁,hd₁,ho₁,hr,hw,hl⟩ := h
  cases hd.symm.trans hd₁
  cases ho.symm.trans ho₁
  exact ⟨Catalog.mem_of_document? hd,Table.mem_of_lookup ho,
    by simp [WorkOperation.isOpen, hr],hr,hw,hl⟩

/-- A lease sweep leaves the documents of an operation alone when it leaves the operation alone:
their other operations have ended. -/
theorem sweep_keepsRows (hinv : CatalogInv s True now c) {f : WorkOperation → WorkOperation}
    {hf : ∀ o, (f o).id = o.id} (hd : d ∈ c.documents) (ho : o ∈ d.operations)
    (hopen : o.isOpen = true) (hself : f o = o) (hclosed : ∀ o, o.isOpen = false → f o = o)
    {id : Uuid} (hw : worksOn o id) :
    (Catalog.mapOperations c f hf).document? id = c.document? id := by
  refine mapOperations_keepsRows fun t ht hid o' ho' => ?_
  by_cases heq : o' = o
  · rw [heq]
    exact hself
  · cases hopen' : o'.isOpen with
    | false => exact hclosed o' hopen'
    | true =>
      have hown : worksOn o' id :=
        Or.inl (((hinv.documents t ht).operations.valid o' ho').document.trans hid)
      exact (CatalogInv.disjoint hinv hd ho hopen ht ho' hopen' (fun h => heq h.symm) hw
        hown).elim

theorem not_running_of_closed (h : o.isOpen = false) : o.state ≠ .running := by
  intro hr
  simp [WorkOperation.isOpen, hr] at h

/-- The transactions of a former owner leave the rows of the operation alone. -/
theorem apply_keepsRows (h : WorldInv s True w know) (hfenced : Fenced w e)
    (hformer : FormerTransaction w ref e)
    (hlost : ¬ owns w.shared.process.workerId ref w.shared.catalog)
    (happly : w.apply s enc e = some w') :
    KeepsRows ref w.shared.catalog w'.shared.catalog := by
  have hinv := h.catalog
  cases e with
  | claim slot =>
    obtain ⟨-,claimed,p,c,hclaim,rfl⟩ := claim_ok happly
    obtain ⟨t,o',o'',ht,ho',hclaimable,-,ho'',-,rfl⟩ := claimNext_ok hinv hclaim
    intro d o hd ho id hw
    obtain ⟨hdm,hom,hopen,hrunning,-⟩ := hformer.row hd ho
    simp only [claimable, Bool.and_eq_true, decide_eq_true_eq] at hclaimable
    have hne : o ≠ o' := by
      rintro rfl
      rw [hrunning] at hclaimable
      cases hclaimable.1.1
    have hopen' : o'.isOpen = true := by simp [WorkOperation.isOpen, hclaimable.1.1]
    have hid : t.id ≠ id := by
      rintro rfl
      exact CatalogInv.disjoint hinv hdm hom hopen ht ho' hopen' hne hw
        (Or.inl ((hinv.documents t ht).operations.valid o' ho').document)
    exact congrArg _ (Catalog.document?_put_of_ne (d := t.putOperation o'') hid)
  | work slot i =>
    obtain ⟨y,r,k,a,σ,hslot,hexec,-,rfl⟩ := work_ok happly
    obtain ⟨hclaimed,-,hp,-⟩ := h.threads slot _ hslot
    change KeepsRows ref w.shared.catalog σ.catalog
    cases r with
    | catalog r =>
      rcases exec_catalog hexec with ⟨b,c,hrun,rfl,rfl⟩ | ⟨e,rfl,rfl,-⟩
      · change KeepsRows ref w.shared.catalog c
        rcases request_moves hinv hclaimed hp hrun with rfl | hc | ⟨hwrite,hc⟩
        · exact KeepsRows.refl ref _
        · exact hc.keepsRows
        · have hproceed : i = .proceed := by
            cases i <;> first | rfl | (simp [exec] at hexec)
          subst hproceed
          have howns : owns w.shared.process.workerId y.ref w.shared.catalog := by
            rcases hfenced y r k hslot with howns | hunfenced
            · exact howns
            · exact hwrite.resolve_right hunfenced
          -- the execution works for an operation that is still its own
          rcases hformer with ⟨t,ht,href⟩ | hleased
          · rw [hslot] at ht
            cases ht
            exact absurd (href ▸ howns) hlost
          · intro d o hd ho id hw
            obtain ⟨hdm,hom,hopen,-,hother,-⟩ := hleased.row hd ho
            obtain ⟨t,o',ht,ho',hrunning,hworker⟩ := howns
            have htm := Catalog.mem_of_document? ht
            have hom' : o' ∈ t.operations := Table.mem_of_lookup ho'
            have hfits := hclaimed.owned ⟨htm,Catalog.id_of_document? ht,hom',
              Table.key_of_lookup ho',hrunning⟩
            have hne : o ≠ o' := by
              rintro rfl
              exact hother hworker
            refine congrArg _ (hc.frame id fun hid => ?_)
            have hw' : worksOn o' id := by
              refine ((hfits.mem_locked hinv).1 hid).imp_left fun he => ?_
              rw [he, ← hfits.documentId]
              exact ((hinv.documents t htm).operations.valid o' hom').document
            exact CatalogInv.disjoint hinv hdm hom hopen htm hom'
              (by simp [WorkOperation.isOpen, hrunning]) hne hw hw'
      · exact KeepsRows.refl ref _
    | _ =>
      rw [(exec_other hexec fun q hq => by cases hq).1]
      exact KeepsRows.refl ref _
  | recoverLeases =>
    cases happly
    intro d o hd ho id hw
    obtain ⟨hdm,hom,hopen,-,-,hlease⟩ := hformer.row hd ho
    refine congrArg _ (sweep_keepsRows hinv hdm hom hopen ?_ (fun o' hclosed => ?_) hw)
    · exact if_neg fun hc => by rw [hlease] at hc; cases hc.2
    · exact if_neg fun hc => not_running_of_closed hclosed hc.1
  | renewLeases =>
    cases happly
    intro d o hd ho id hw
    obtain ⟨hdm,hom,hopen,-,hother,-⟩ := hformer.row hd ho
    refine congrArg _ (sweep_keepsRows hinv hdm hom hopen ?_ (fun o' hclosed => ?_) hw)
    · exact if_neg fun hc => hother hc.2.1
    · exact if_neg fun hc => not_running_of_closed hclosed hc.1
  | _ => exact hformer.elim

/-! ### Runs of the fleet -/

section Fleet
variable {ι : Type} {workerId : ι → Uuid} {f f' : Fleet ι} {i j : ι}

/-- The catalog, every thread of every instance, and the worker ids. -/
structure FleetInv (s : Settings) (workerId : ι → Uuid) (f : Fleet ι)
    (know : ι → Slot → Knowledge) : Prop where
  catalog : CatalogInv s True f.now f.catalog
  threads : ∀ i slot t, f.slots i slot = some t → ThreadInv s f.catalog t (know i slot)
  identity : ∀ i, (f.process i).workerId = workerId i

theorem FleetInv.view {know : ι → Slot → Knowledge} (h : FleetInv s workerId f know) (i : ι) :
    WorldInv s True (f.view i) (know i) := ⟨h.catalog,h.threads i⟩

theorem fleet_initial_inv (know : ι → Slot → Knowledge) :
    FleetInv s workerId (Fleet.initial workerId) know where
  catalog := CatalogInv.empty
  threads := fun _ _ _ h => by cases h
  identity := fun _ => rfl

variable [DecidableEq ι]

/-- The steps of a fleet that meet a condition. -/
abbrev FleetSteps (s : Settings) (enc : Encoding) (P : Fleet ι → ι → Event → Prop) :
    Fleet ι → Fleet ι → Prop :=
  Relation.ReflTransGen fun f f' => ∃ i e, P f i e ∧ f.step s enc i e = some f'

/-- The fleets that any interleaving of the instances reaches. -/
abbrev FleetReachable (s : Settings) (enc : Encoding) (workerId : ι → Uuid) (f : Fleet ι) : Prop :=
  FleetSteps s enc (fun _ _ _ => True) (Fleet.initial workerId) f

theorem fleet_step_ok (h : f.step s enc i e = some f') :
    ¬ Restarts e ∧ ∃ w, (f.view i).step s enc e = some w ∧ f' = f.put i w := by
  unfold Fleet.step at h
  split at h
  · cases h
  · rename_i hne
    obtain ⟨w,hstep,rfl⟩ := Option.map_eq_some_iff.1 h
    refine ⟨fun hr => ?_,w,hstep,rfl⟩
    cases e with
    | restart => exact hne rfl
    | _ => exact hr

/-- One instance moves, and the threads of the others keep their claims. -/
theorem fleet_step_inv {know : ι → Slot → Knowledge} (h : FleetInv s workerId f know)
    (hstep : f.step s enc i e = some f') : ∃ know, FleetInv s workerId f' know := by
  obtain ⟨hrestart,w,hw,rfl⟩ := fleet_step_ok hstep
  have hinv := step_inv (h.view i) (fun _ => trivial) hw
  have hchange : CatalogChange s True (fun _ => True) f.now f.catalog w.shared.catalog :=
    step_change (h.view i) (fun _ => trivial) (fun _ _ => trivial) hw
  refine ⟨Function.update know i (knows s enc (f.view i) (know i) e),hinv.catalog,?_,?_⟩
  · intro j slot t ht
    simp only [Fleet.put, Function.update_apply] at ht ⊢
    split
    · rename_i he
      rw [if_pos he] at ht
      exact hinv.threads slot t ht
    · rename_i he
      rw [if_neg he] at ht
      exact (h.threads j slot t ht).change h.catalog hchange
  · intro j
    simp only [Fleet.put, Function.update_apply]
    split
    · rename_i he
      obtain ⟨w₁,happly,rfl⟩ := Option.map_eq_some_iff.1 hw
      rw [he]
      have hkeep := @apply_owns s enc (workerId i) ⟨workerId i,workerId i⟩ _ _ _ _ (h.view i)
        happly hrestart
      exact hkeep.1.trans (h.identity i)
    · exact h.identity j

theorem FleetSteps.inv {P : Fleet ι → ι → Event → Prop} (hrun : FleetSteps s enc P f f')
    (h : ∃ know, FleetInv s workerId f know) : ∃ know, FleetInv s workerId f' know := by
  induction hrun with
  | refl => exact h
  | tail _ hstep ih =>
    obtain ⟨i,e,-,hstep⟩ := hstep
    obtain ⟨know,hinv⟩ := ih
    exact fleet_step_inv hinv hstep

/-- A worker that has lost an operation does not own it again before it claims it. -/
theorem fleet_step_lost (hids : Function.Injective workerId) {know : ι → Slot → Knowledge}
    (h : FleetInv s workerId f know) (hstep : f.step s enc i e = some f')
    (hclaim : ¬ (i = j ∧ Claims s (f.view i) ref e)) (hlost : ¬ owns (workerId j) ref f.catalog) :
    ¬ owns (workerId j) ref f'.catalog := by
  obtain ⟨hrestart,w,hw,rfl⟩ := fleet_step_ok hstep
  obtain ⟨w₁,happly,rfl⟩ := Option.map_eq_some_iff.1 hw
  intro ho
  rcases (apply_owns (h.view i) happly hrestart).2 ho with hold | ⟨hworker,hclaims⟩
  · exact hlost hold
  · exact hclaim ⟨hids ((h.identity i).symm.trans hworker.symm),hclaims⟩

/-- The run lemma: it does not own it after any steps of the fleet without such a claim. -/
theorem FleetSteps.lost {P : Fleet ι → ι → Event → Prop} (hids : Function.Injective workerId)
    (hP : ∀ f i e, P f i e → ¬ (i = j ∧ Claims s (f.view i) ref e))
    (hrun : FleetSteps s enc P f f') (h : ∃ know, FleetInv s workerId f know)
    (hlost : ¬ owns (workerId j) ref f.catalog) : ¬ owns (workerId j) ref f'.catalog := by
  induction hrun with
  | refl => exact hlost
  | tail hrun hstep ih =>
    obtain ⟨i,e,hPe,hstep⟩ := hstep
    obtain ⟨know,hinv⟩ := FleetSteps.inv hrun h
    exact fleet_step_lost hids hinv hstep (hP _ i e hPe) ih

theorem owns_unique {worker' : Uuid} (h : owns worker ref c) (h' : owns worker' ref c) :
    worker = worker' := by
  obtain ⟨d,o,hd,ho,-,hw⟩ := h
  obtain ⟨d',o',hd',ho',-,hw'⟩ := h'
  cases hd.symm.trans hd'
  cases ho.symm.trans ho'
  exact Option.some.inj (hw.symm.trans hw')

/-- Lease fencing: after another instance has claimed an operation, and until it claims the
operation again itself, no fenced transaction of an instance changes the operation or the rows
that it works on. -/
theorem lease_fencing (hids : Function.Injective workerId) {f₁ f₂ f₃ : Fleet ι} {a b : ι}
    (hreach : FleetReachable s enc workerId f₁) (hab : a ≠ b)
    (hclaimed : owns (workerId b) ref f₁.catalog)
    (hrun : FleetSteps s enc
      (fun f i e => Fenced (f.view i) e ∧ ¬ (i = a ∧ Claims s (f.view i) ref e)) f₁ f₂)
    (hformer : FormerTransaction (f₂.view a) ref e) (hfenced : Fenced (f₂.view a) e)
    (hstep : f₂.step s enc a e = some f₃) : KeepsRows ref f₂.catalog f₃.catalog := by
  have h₁ : ∃ know, FleetInv s workerId f₁ know :=
    hreach.inv ⟨fun _ _ => ∅,fleet_initial_inv _⟩
  obtain ⟨know,h₂⟩ := FleetSteps.inv hrun h₁
  have hlost : ¬ owns (workerId a) ref f₂.catalog := by
    refine FleetSteps.lost hids (fun _ _ _ hP => hP.2) hrun h₁ fun ho => ?_
    exact hab (hids (owns_unique ho hclaimed))
  obtain ⟨-,w,hw,rfl⟩ := fleet_step_ok hstep
  obtain ⟨w₁,happly,rfl⟩ := Option.map_eq_some_iff.1 hw
  have hlost' : ¬ owns (f₂.view a).shared.process.workerId ref (f₂.view a).shared.catalog := by
    rw [show (f₂.view a).shared.process.workerId = workerId a from h₂.identity a]
    exact hlost
  have hkeeps := apply_keepsRows (h₂.view a) hfenced hformer hlost' happly
  exact hkeeps

end Fleet

/-! ### Two instances -/

/-- The ids of a worker and of the one that takes its operation over. -/
def twoWorkers : Bool → Uuid
  | false => uuid4 0 1
  | true => uuid4 0 2

theorem twoWorkers_injective : Function.Injective twoWorkers := by
  intro i j h
  cases i <;> cases j <;> first | rfl | cases h

/-- The preflight of the first upload. -/
def firstPreflight : OperationRef := ⟨uuid4 0 0,uuid4 0 0⟩

/-- One instance claims the preflight, its lease expires, and the other one claims it. -/
def handover : List (Bool × Event) :=
  [(false,uploadOf "a"),(false,.claim .first),(false,.wait 100),(true,.recoverLeases),
    (true,.claim .first)]

theorem Fleet.run_steps {ι : Type} [DecidableEq ι] {f f' : Fleet ι} {es : List (ι × Event)}
    (h : f.run s enc es = some f') : FleetSteps s enc (fun _ _ _ => True) f f' := by
  induction es generalizing f with
  | nil =>
    cases h
    exact Relation.ReflTransGen.refl
  | cons x es ih =>
    obtain ⟨f₁,hstep,h⟩ := Option.bind_eq_some_iff.1 h
    exact Relation.ReflTransGen.head ⟨x.1,x.2,trivial,hstep⟩ (ih h)

/-- A decidable form of ownership. -/
def runsFor (worker : Uuid) (ref : OperationRef) (c : Catalog) : Bool :=
  (c.document? ref.documentId).any fun d => (d.operation? ref.operationId).any fun o =>
    o.state = .running && o.workerId = some worker

theorem owns_of_runsFor (h : runsFor worker ref c = true) : owns worker ref c := by
  obtain ⟨d,hd,h⟩ := (Option.any_eq_true _ _).1 h
  obtain ⟨o,ho,h⟩ := (Option.any_eq_true _ _).1 h
  simp only [Bool.and_eq_true, decide_eq_true_eq] at h
  exact ⟨d,o,hd,ho,h.1,h.2⟩

/-- The next request of an execution reads the source. -/
def awaitsSource : Prog Unit → Bool
  | .call (.catalog .preflightSource) _ => true
  | _ => false

/-- The stale execution asks for its operation and finds the lease lost. -/
theorem lease_fencing_stale : ∃ f₁ f₃ : Fleet Bool,
    owns (twoWorkers true) firstPreflight f₁.catalog ∧
    f₁.step booksSettings plainEncoding false (.work .first .proceed) = some f₃ ∧
    KeepsRows firstPreflight f₁.catalog f₃.catalog := by
  have h : (((Fleet.initial twoWorkers).run booksSettings plainEncoding handover).any fun f₁ =>
      runsFor (twoWorkers true) firstPreflight f₁.catalog &&
      (f₁.slots false .first).any (fun t => t.claimed.ref = firstPreflight &&
        awaitsSource t.program) &&
      (f₁.step booksSettings plainEncoding false (.work .first .proceed)).isSome) = true := by
    decide +kernel
  obtain ⟨f₁,hrun,h⟩ := (Option.any_eq_true _ _).1 h
  simp only [Bool.and_eq_true] at h
  obtain ⟨⟨howns,hslot⟩,hstep⟩ := h
  obtain ⟨f₃,hstep⟩ := Option.isSome_iff_exists.1 hstep
  obtain ⟨t,ht,hslot⟩ := (Option.any_eq_true _ _).1 hslot
  simp only [Bool.and_eq_true, decide_eq_true_eq] at hslot
  have hfenced : Fenced (f₁.view false) (.work .first .proceed) := by
    intro x r k hx
    cases ht.symm.trans hx
    refine Or.inr fun hu => ?_
    cases r <;> first | exact hu | cases hslot.2
  have hformer : FormerTransaction (f₁.view false) firstPreflight (.work .first .proceed) :=
    Or.inl ⟨t,ht,hslot.1⟩
  exact ⟨f₁,f₃,owns_of_runsFor howns,hstep,lease_fencing twoWorkers_injective
    (Fleet.run_steps hrun) (by decide) (owns_of_runsFor howns) Relation.ReflTransGen.refl
    hformer hfenced hstep⟩

/-- A database error in the stale execution marks the operation that the other instance runs as
failed. -/
theorem stale_failure_crosses : ¬ ∀ (f₁ f₂ f₃ : Fleet Bool) (e : Event),
    FleetReachable booksSettings plainEncoding twoWorkers f₁ →
    owns (twoWorkers true) firstPreflight f₁.catalog →
    FleetSteps booksSettings plainEncoding
      (fun f i e => ¬ (i = false ∧ Claims booksSettings (f.view i) firstPreflight e)) f₁ f₂ →
    FormerTransaction (f₂.view false) firstPreflight e →
    f₂.step booksSettings plainEncoding false e = some f₃ →
    KeepsRows firstPreflight f₂.catalog f₃.catalog := by
  have h : (((Fleet.initial twoWorkers).run booksSettings plainEncoding handover).any fun f₁ =>
      runsFor (twoWorkers true) firstPreflight f₁.catalog &&
      (f₁.step booksSettings plainEncoding false (.work .first .databaseFault)).any fun f₂ =>
        (f₂.slots false .first).any (fun t => t.claimed.ref = firstPreflight) &&
        (f₂.step booksSettings plainEncoding false (.work .first .proceed)).any fun f₃ =>
          (f₂.catalog.document? firstPreflight.documentId).any fun d =>
            (d.operation? firstPreflight.operationId).any fun o =>
              (f₃.catalog.document? o.documentId).map workRows ≠
                (f₂.catalog.document? o.documentId).map workRows) = true := by
    decide +kernel
  obtain ⟨f₁,hrun,h⟩ := (Option.any_eq_true _ _).1 h
  obtain ⟨howns,h⟩ := Bool.and_eq_true_iff.1 h
  obtain ⟨f₂,hfault,h⟩ := (Option.any_eq_true _ _).1 h
  obtain ⟨hslot,h⟩ := Bool.and_eq_true_iff.1 h
  obtain ⟨t,ht,href⟩ := (Option.any_eq_true _ _).1 hslot
  obtain ⟨f₃,hfail,h⟩ := (Option.any_eq_true _ _).1 h
  obtain ⟨d,hd,h⟩ := (Option.any_eq_true _ _).1 h
  obtain ⟨o,ho,h⟩ := (Option.any_eq_true _ _).1 h
  intro hclaim
  have hformer : FormerTransaction (f₂.view false) firstPreflight (.work .first .proceed) :=
    Or.inl ⟨t,ht,of_decide_eq_true href⟩
  have hsteps : FleetSteps booksSettings plainEncoding
      (fun f i e => ¬ (i = false ∧ Claims booksSettings (f.view i) firstPreflight e)) f₁ f₂ :=
    Relation.ReflTransGen.single ⟨false,.work .first .databaseFault,fun hc => hc.2,hfault⟩
  exact of_decide_eq_true h (hclaim f₁ f₂ f₃ _ (Fleet.run_steps hrun) (owns_of_runsFor howns)
    hsteps hformer hfail d o hd ho o.documentId (Or.inl rfl))

end Lifecycle
end PdfBridge
