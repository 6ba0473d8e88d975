import PdfBridge.Lifecycle.Ownership

/-! Which advertised actions are accepted: when a failed operation can be taken up again, and when
a delete request leads to the deletion. -/
namespace PdfBridge
namespace Lifecycle
open Api Intake

variable {s : Settings} {enc : Encoding} {rejects : FailureCode → Prop} {strands : Prop}
  {w : World} {c : Catalog} {now : Time} {d d' i t : Document} {o : WorkOperation}
  {actor : Text 255}

/-! ### The conditions -/

/-- The newest operation has left the queue. -/
def Started (d : Document) : Prop := ∀ o, newest d = some o → o.phase ≠ .queued

/-- The failed operation behind a failed document has left the queue; for a replaced document it
belongs to the incoming one, which has failed too. -/
def RetryResumes (c : Catalog) (d : Document) : Prop :=
  match d.state, d.replacedByDocumentId with
  | .deleteFailed, some id => ∃ i, i ∈ c.documents ∧ i.id = id ∧ i.state = .publishFailed ∧
      Started i
  | _, _ => Started d

/-- Retryable failures happened to started operations, and only verified deletions fail, and
retryably. -/
structure ActionsSound (c : Catalog) (d : Document) : Prop where
  retry : failedState d.state = true → d.failureRetryable = true → RetryResumes c d
  delete : d.state = .deleteFailed →
    d.terminalDisposition = some .deleted ∧ d.failureRetryable = true

/-- The mutation is accepted. -/
def Accepts (x : Outcome MutationOutcome) : Prop := ∃ m, x = .ok m

/-- A delete request is accepted with an operation that is still open, or has failed and can be
retried. -/
def DeletionProceeds (s : Settings) (now : Time) (c : Catalog) (d : Document)
    (actor : Text 255) : Prop :=
  ∃ m, deleteDocument s now d.id actor c = .ok m ∧ (m.operation.isOpen = true ∨
    (m.operation.state = .failed ∧ Accepts (retryDocument now d.id actor m.catalog)))

/-- The advertised actions are the accepted ones. -/
structure ActionsAccepted (s : Settings) (now : Time) (c : Catalog) (d : Document)
    (actor : Text 255) : Prop where
  retry : .retry ∈ allowedActions d ↔ Accepts (retryDocument now d.id actor c)
  delete : .delete ∈ allowedActions d → DeletionProceeds s now c d actor

theorem retry_mem_allowedActions : .retry ∈ allowedActions d ↔
    failedState d.state = true ∧ d.failureRetryable = true := by
  unfold allowedActions
  cases d.state <;> cases d.failureRetryable <;> simp [failedState]

theorem delete_mem_allowedActions : .delete ∈ allowedActions d ↔
    atRest d.state ∨ d.state = .deleteFailed := by
  unfold allowedActions
  cases d.state <;> cases d.failureRetryable <;> simp [atRest]

/-! ### Retries -/

theorem enqueueOperation_eq {type : OperationType} {priority : OperationPriority}
    {revisionId target : Option Uuid} {phase : OperationPhase}
    (hpriority : priorityForOperation type target.isSome = some priority)
    (htarget : target ≠ some d.id) (hphase : allowedPhase type target.isSome phase = true) :
    enqueueOperation now d type priority revisionId target phase =
      .ok (newOperation now d type priority revisionId target phase,
        d.putOperation (newOperation now d type priority revisionId target phase)) := by
  simp only [enqueueOperation, bind_eq_ok, orRaise_eq_ok, require_eq_ok, pure_eq_ok,
    exists_const]
  exact ⟨priority,hpriority,rfl,htarget,hphase,trivial⟩

theorem OperationValid.priority_name {id : Uuid} (h : OperationValid id o) :
    ∃ priority, priorityOfValue? o.priority = some priority ∧
      priorityForOperation o.operationType o.replacementTargetDocumentId.isSome =
        some priority := by
  obtain ⟨priority,hfor,hvalue⟩ := Option.map_eq_some_iff.1 h.priority
  refine ⟨priority,?_,hfor⟩
  rw [← hvalue]
  cases priority <;> rfl

/-- The failed state of a document names its newest operation. -/
theorem DocumentInv.failed_operation (h : DocumentInv s now d) {type : OperationType}
    (he : expected d.state d.replacedByDocumentId.isSome = (type,.failed)) :
    ∃ o, newest d = some o ∧ latestOperation d type = some o ∧ o.operationType = type ∧
      o.state = .failed ∧ o.retryable = d.failureRetryable ∧
      allowedPhase type o.replacementTargetDocumentId.isSome o.phase = true := by
  obtain ⟨o,ho,hstanding⟩ := h.standing
  have htype := hstanding.type_eq he
  have hfailed := ending_eq_failed.1 (hstanding.ending_eq he)
  have hlatest := h.operations.latestOperation_newest ho
  have hphase := h.allowedPhase_failed ho hfailed
  rw [htype] at hlatest hphase
  exact ⟨o,ho,hlatest,htype,hfailed,hstanding.retryable hfailed,hphase⟩

theorem resumable_of_started (hstate : o.state = .failed) (hretryable : o.retryable = true)
    {type : OperationType} {replaces : Bool} (hphase : allowedPhase type replaces o.phase = true)
    (hstarted : o.phase ≠ .queued) : resumableFailure o = true := by
  have hcomplete : o.phase ≠ .complete := fun hp => by
    rw [hp] at hphase
    cases type <;> cases replaces <;> cases hphase
  have hawaiting : o.phase ≠ .awaitingDecision := fun hp => by
    rw [hp] at hphase
    cases type <;> cases replaces <;> cases hphase
  simp [resumableFailure, hstate, hretryable, hstarted, hcomplete, hawaiting]

/-- The one publication of a published document, with its sealed revision. -/
theorem DocumentInv.published (h : DocumentInv s now d) (hstate : publicationState d.state = true) :
    ∃ p r, d.publications.rows = [p] ∧ statusFits d.state p.status ∧ r ∈ d.preparedRevisions ∧
      r.status = .sealed ∧ r.id = p.preparedRevisionId ∧
      r.identity.activeQdrantCollection = p.activeQdrantCollection ∧
      r.expectedPointCount = some p.expectedPoints ∧
      ∀ o ∈ d.operations.rows, o.operationType = .publish →
        o.preparedRevisionId = some p.preparedRevisionId := by
  obtain ⟨p,hp⟩ := List.exists_mem_of_ne_nil _ (h.publications.present hstate)
  obtain ⟨r,target,⟨hr,hsealed,-⟩,hid,hactive,hpoints,hops⟩ := h.publications.bound p hp
  exact ⟨p,r,h.publications.rows_eq hp,h.publications.status p hp,hr,hsealed,hid,hactive,hpoints,
    fun o ho ht => hid ▸ (hops o ho ht).1⟩

/-- The publication of a failed document can be reset. -/
theorem DocumentInv.resetPublication_ok (h : DocumentInv s now d)
    (hstate : d.state = .publishFailed) (ho : o ∈ d.operations.rows)
    (htype : o.operationType = .publish) :
    ∃ p, p ∈ d.publications ∧ resetPublication d o.preparedRevisionId =
      .ok (d.putPublication {p with status := .pending, failureCode := none}) := by
  obtain ⟨p,r,hrows,hstatus,hr,hsealed,hid,hactive,hpoints,hops⟩ :=
    h.published (by rw [hstate]; rfl)
  rw [hstate] at hstatus
  have hne : p.status ≠ .verified := by
    rw [show p.status = .failed from hstatus]
    decide
  have hlookup : d.publicationForRevision p.preparedRevisionId = some p := by
    simp [Document.publicationForRevision, hrows]
  have hrevision : d.revision? p.preparedRevisionId = some r := hid ▸ Table.lookup_of_mem hr
  refine ⟨p,by rw [Table.mem_def, hrows]; exact List.mem_singleton_self p,?_⟩
  simp only [resetPublication, bind_eq_ok, require_eq_ok, orRaise_eq_ok, exists_const, pure_eq_ok]
  exact ⟨_,hops o ho htype,p,hlookup,r,hrevision,⟨hsealed,hne,hactive.symm,hpoints⟩,rfl⟩

/-- A failed operation that has started can be taken up again through the document it belongs
to. -/
theorem CatalogInv.retry_through (h : CatalogInv s strands now c) (hd : d ∈ c.documents)
    (hi : i ∈ c.documents) (howner : retryOwner c d = .ok i) (hr : d.failureRetryable = true)
    {type : OperationType} {next : DocumentState}
    (htransition : retryTransition i.state = some (type,next))
    (he : expected i.state i.replacedByDocumentId.isSome = (type,.failed))
    (hir : i.failureRetryable = true) (hstarted : Started i)
    (hbinding : ∀ o, newest i = some o →
      d.id = i.id ∨ o.replacementTargetDocumentId = some d.id) :
    Accepts (retryDocument now d.id actor c) := by
  have iinv := h.documents i hi
  obtain ⟨o,ho,hlatest,htype,hfailed,hretryable,hphase⟩ := iinv.failed_operation he
  have hresumable := resumable_of_started hfailed (hretryable.trans hir) hphase (hstarted o ho)
  have hvalid := iinv.operations.valid o (mem_of_newest ho)
  obtain ⟨priority,hname,hfor⟩ := hvalid.priority_name
  rw [htype] at hfor
  have hnone : type ≠ .publish → o.replacementTargetDocumentId = none := by
    intro hne
    cases ht : o.replacementTargetDocumentId with
    | none => rfl
    | some id => exact absurd (htype.symm.trans (hvalid.publish_of_target ht)) hne
  unfold Accepts
  simp only [retryDocument, requestRetry, requireReservation, reservation, bind_eq_ok,
    require_eq_ok, orRaise_eq_ok, exists_const, Prod.exists]
  suffices hrest : ∃ m, _ from by
    obtain ⟨m,hm⟩ := hrest
    exact ⟨m,⟨trivial,trivial⟩,d,orRaise_eq_ok.2 (Catalog.document?_of_mem hd),hr,i,howner,type,next,
      htransition,o,hlatest,hresumable,priority,hname,hbinding o ho,hm⟩
  cases type with
  | preflight =>
    have htarget := hnone (by decide)
    rw [htarget] at hfor hphase
    simp only [htarget, bind_eq_ok, require_eq_ok, exists_const, Prod.exists, pure_eq_ok]
    exact ⟨_,trivial,_,_,enqueueOperation_eq hfor (by simp) hphase,rfl⟩
  | publish =>
    have hs : i.state = .publishFailed := by
      cases hs : i.state <;> rw [hs] at htransition <;> cases htransition
    obtain ⟨p,hp,hreset⟩ := iinv.resetPublication_ok hs (mem_of_newest ho) htype
    cases htarget : o.replacementTargetDocumentId with
    | none =>
      rw [htarget] at hfor hphase
      simp only [bind_eq_ok, Prod.exists, pure_eq_ok]
      exact ⟨_,_,hreset,_,_,enqueueOperation_eq hfor (by simp) hphase,rfl⟩
    | some id =>
      rw [htarget] at hfor hphase
      obtain ⟨t,ht,htid,hown⟩ := h.link.replaced i hi id ⟨o,mem_of_newest ho,htarget⟩
      obtain ⟨q,hq,-⟩ := (h.documents t ht).deletion.progress
        ((h.documents t ht).deletion_of_replaced (by rw [hown]; rfl))
      obtain ⟨t',ht'⟩ : ∃ t', resumeReplacementTarget c id = .ok t' := by
        simp only [resumeReplacementTarget, bind_eq_ok, orRaise_eq_ok]
        by_cases hstate : t.state = .deleteFailed
        · exact ⟨_,t,htid ▸ Catalog.document?_of_mem ht,q,hq,if_pos hstate⟩
        · exact ⟨_,t,htid ▸ Catalog.document?_of_mem ht,q,hq,if_neg hstate⟩
      simp only [bind_eq_ok, Prod.exists, pure_eq_ok]
      exact ⟨_,_,hreset,t',ht',_,_,
        enqueueOperation_eq hfor (htarget ▸ hvalid.target) hphase,rfl⟩
  | delete =>
    have hs : i.state = .deleteFailed := by
      cases hs : i.state <;> rw [hs] at htransition <;> cases htransition
    have htarget := hnone (by decide)
    rw [htarget] at hfor
    obtain ⟨q,hq,qinv⟩ := iinv.deletion.progress (by rw [hs]; rfl)
    simp only [htarget, bind_eq_ok, require_eq_ok, orRaise_eq_ok, exists_const, Prod.exists,
      pure_eq_ok]
    exact ⟨_,q,hq,⟨(qinv.attempts o (mem_of_newest ho) htype).symm,trivial⟩,_,_,
      enqueueOperation_eq hfor (by simp) rfl,rfl⟩

/-- The failed work class of a document that is not waiting for another one. -/
theorem expected_of_transition {type : OperationType} {next : DocumentState}
    (htransition : retryTransition d.state = some (type,next))
    (hfree : d.state = .deleteFailed → d.replacedByDocumentId = none) :
    expected d.state d.replacedByDocumentId.isSome = (type,.failed) := by
  cases hs : d.state <;> rw [hs] at htransition <;> cases htransition
  · rfl
  · rfl
  · rw [hfree hs]
    rfl

theorem DocumentInv.started_of_resumable (h : DocumentInv s now d) {type : OperationType}
    (he : expected d.state d.replacedByDocumentId.isSome = (type,.failed))
    (ho : latestOperation d type = some o) (hresumable : resumableFailure o = true) :
    Started d := by
  obtain ⟨x,hx,hlatest,-⟩ := h.failed_operation he
  cases ho.symm.trans hlatest
  intro y hy
  cases hx.symm.trans hy
  simp only [resumableFailure, Bool.and_eq_true, decide_eq_true_eq] at hresumable
  exact hresumable.1.1.2

theorem Started.resumes (h : Started d)
    (hfree : d.state = .deleteFailed → d.replacedByDocumentId = none) : RetryResumes c d := by
  unfold RetryResumes
  split
  · rename_i hs hr
    rw [hfree hs] at hr
    cases hr
  · exact h

/-- Exactly the retryable failures of started operations can be retried. -/
theorem CatalogInv.retry_accepts_iff (h : CatalogInv s True now c) (hd : d ∈ c.documents) :
    Accepts (retryDocument now d.id actor c) ↔
      failedState d.state = true ∧ d.failureRetryable = true ∧ RetryResumes c d := by
  have dinv := h.documents d hd
  constructor
  · rintro ⟨m,hm⟩
    simp only [retryDocument, requestRetry, requireReservation, reservation, bind_eq_ok,
      require_eq_ok, orRaise_eq_ok, exists_const, Prod.exists] at hm
    obtain ⟨-,x,hx,hr,i,howner,type,next,htransition,o,hlatest,hresumable,-⟩ := hm
    cases (orRaise_eq_ok.1 hx).symm.trans (Catalog.document?_of_mem hd)
    unfold retryOwner at howner
    split at howner
    · rename_i id hs hreplaced
      simp only [bind_eq_ok, require_eq_ok, exists_const, pure_eq_ok] at howner
      obtain ⟨i,hi,⟨histate,-,-⟩,rfl⟩ := howner
      obtain ⟨hic,rfl⟩ := getDocumentForUpdate_ok hi
      refine ⟨by rw [hs]; rfl,hr,?_⟩
      unfold RetryResumes
      rw [hs, hreplaced]
      refine ⟨i,hic,rfl,histate,?_⟩
      exact (h.documents i hic).started_of_resumable
        (expected_of_transition htransition fun hc => by rw [histate] at hc; cases hc) hlatest
        hresumable
    · rename_i hne
      cases howner
      have hfree : d.state = .deleteFailed → d.replacedByDocumentId = none := by
        intro hs
        cases hreplaced : d.replacedByDocumentId with
        | none => rfl
        | some id => exact absurd hreplaced (hne id hs)
      refine ⟨?_,hr,Started.resumes (dinv.started_of_resumable
        (expected_of_transition htransition hfree) hlatest hresumable) hfree⟩
      cases hs : d.state <;> rw [hs] at htransition <;> cases htransition <;> rfl
  · rintro ⟨hfailed,hr,hresumes⟩
    unfold RetryResumes at hresumes
    split at hresumes
    · -- the incoming document failed with the cleanup of this one
      rename_i id hs hreplaced
      obtain ⟨i,hi,rfl,histate,hstarted⟩ := hresumes
      have howns := h.owns hi hd hreplaced
      have hretryable : i.failureRetryable = true := by
        rcases howns.fits.2 hs with ⟨-,he⟩ | ⟨-,he⟩
        · rw [he, hr]
        · rw [histate] at he
          cases he
      have he : expected i.state i.replacedByDocumentId.isSome = (.publish,.failed) := by
        rw [histate]
        rfl
      have iinv := h.documents i hi
      obtain ⟨o,ho,hlatest,htype,-⟩ := iinv.failed_operation he
      have htarget := iinv.target_eq howns.targets (mem_of_newest ho) htype
      refine h.retry_through hd hi ?_ hr (by rw [histate]; rfl) he hretryable hstarted ?_
      · unfold retryOwner
        rw [hs, hreplaced]
        simp only [getDocumentForUpdate, bind_eq_ok, orRaise_eq_ok, require_eq_ok, exists_const,
          pure_eq_ok]
        exact ⟨i,Catalog.document?_of_mem hi,⟨histate,hretryable,by
          rw [hlatest]
          simpa using htarget⟩,rfl⟩
      · intro o' ho'
        cases ho.symm.trans ho'
        exact Or.inr htarget
    · rename_i hne
      have hfree : d.state = .deleteFailed → d.replacedByDocumentId = none := by
        intro hs
        cases hreplaced : d.replacedByDocumentId with
        | none => rfl
        | some id => exact absurd hreplaced (hne id hs)
      obtain ⟨type,next,htransition⟩ : ∃ type next,
          retryTransition d.state = some (type,next) := by
        cases hs : d.state <;> rw [hs] at hfailed <;> first | exact ⟨_,_,rfl⟩ | cases hfailed
      refine h.retry_through hd hd ?_ hr htransition (expected_of_transition htransition hfree)
        hr hresumes fun _ _ => Or.inl rfl
      unfold retryOwner
      split
      · rename_i id hs hreplaced
        exact absurd hreplaced (hne id hs)
      · rfl

/-! ### Invariants of the histories that deletions read -/

/-- A document in review has a sealed revision. -/
def ReviewSealed (d : Document) : Prop :=
  d.state = .reviewRequired → ∃ r, r ∈ d.preparedRevisions ∧ r.status = .sealed

theorem failDocument_not_review (o : WorkOperation) (code : FailureCode) (message : Text 500)
    (retryable : Bool) (d : Document) :
    (Worker.failDocument o code message retryable d).state ≠ .reviewRequired := by
  unfold Worker.failDocument
  cases o.operationType with
  | preflight =>
    show (if d.state = .deleting then DocumentState.deleting else .preflightFailed) ≠ _
    split <;> decide
  | publish => exact fun hs => by cases hs
  | delete => exact fun hs => by cases hs

theorem toState_not_review (x : TerminalDisposition) : x.toState ≠ .reviewRequired := by
  cases x <;> decide

theorem ReviewSealed.change (hr : ReviewSealed d) (hd : DocumentInv s now d)
    (hc : Change s rejects now d d') : ReviewSealed d' := by
  intro hs'
  have kept : d.state = .reviewRequired → d.deletionProgress = none := fun hs =>
    (hd.deletion.live (by rw [hs]; rfl)).1
  cases hc with
  | review _ _ _ _ hr hsealed => exact ⟨_,hr,hsealed⟩
  | revise revisions hkept =>
    obtain ⟨r,hr,hsealed⟩ := hr hs'
    exact ⟨r,hkept r hr hsealed,hsealed⟩
  | touch | index => exact hr hs'
  | upsert hstate => cases hstate.symm.trans hs'
  | progress hp | purge hp => cases (kept hs').symm.trans hp
  | fail ho hopen hs hfailed code message outbox =>
    exact absurd hs' (failDocument_not_review _ code message _ _)
  | bury hp | buryOwn hp => exact absurd hs' (toState_not_review _)
  | _ => cases hs'

/-- A replaced document has never had a deletion of its own. -/
def YieldsOnly (d : Document) : Prop :=
  d.replacedByDocumentId.isSome = true → ∀ o ∈ d.operations.rows, o.operationType ≠ .delete

theorem YieldsOnly.change (hy : YieldsOnly d) (hd : DocumentInv s now d)
    (hc : Change s rejects now d d') : YieldsOnly d' := by
  intro hr'
  have live : deletionState d.state = false → ¬ d.replacedByDocumentId.isSome = true :=
    fun hs hr => by
      rw [(hd.deletion.live hs).2.replaced] at hr
      cases hr
  have touched : ∀ {rows : Table WorkOperation.id},
      List.Forall₂ Touch d.operations.rows rows.rows → d.replacedByDocumentId.isSome = true →
      ∀ o ∈ rows.rows, o.operationType ≠ .delete := by
    intro rows ht hr o ho
    obtain ⟨x,hx,hxo⟩ := exists_of_touched ht ho
    rw [hxo.type]
    exact hy hr x hx
  have settled : ∀ {o o' : WorkOperation}, newest d = some o → Settle o o' →
      d.replacedByDocumentId.isSome = true →
      ∀ x ∈ (d.putOperation o').operations.rows, x.operationType ≠ .delete := by
    intro o o' ho hs hr x hx
    obtain ⟨rest,hrows⟩ := newest_eq_some.1 ho
    rw [rows_putOperation hrows hs.id.symm] at hx
    rcases List.mem_cons.1 hx with rfl | hx
    · rw [hs.type]
      exact hy hr o (mem_of_newest ho)
    · exact hy hr x (hrows ▸ List.mem_cons_of_mem _ hx)
  cases hc with
  | yield_ hstate => exact (hd.deletion.live (by rw [hstate]; rfl)).2.attempts
  | touch operations ht => exact touched ht hr'
  | progress _ _ operations ht | purge _ _ _ operations ht => exact touched ht hr'
  | buryOwn _ _ ho _ hs => exact settled ho hs hr'
  | @fail o o' ho hopen hs hfailed code message outbox =>
    have hrows := failDocument_sameRows o code message o'.retryable (d.putOperation o')
    have hr : d.replacedByDocumentId.isSome = true := by
      rw [show d.replacedByDocumentId = _ from hrows.replaced.symm]
      exact hr'
    have hall := settled ho hs hr
    rw [← hrows.operations] at hall
    exact hall
  | retryDelete hstate howner =>
    have hr : d.replacedByDocumentId.isSome = true := hr'
    rw [howner] at hr
    cases hr
  | review hs | approve hs | reject hs | upsert hs | publish hs | decide hs | cancel hs
  | retryPreflight hs | retryPublish hs => exact absurd hr' (live (by rw [hs]; rfl))
  | delete hs => exact absurd hr' (live (by rcases hs with hs | hs | hs | hs <;> rw [hs] <;> rfl))
  | _ => exact hy hr'

theorem ReachableBy.yieldsOnly (h : Reachable s enc w) :
    ∀ d, d ∈ w.shared.catalog.documents → YieldsOnly d :=
  h.documents (fun _ => True) (fun _ _ _ _ _ => trivial) (fun _ _ hr => by cases hr)
    fun _ _ _ hd hy hc => hy.change hd hc

theorem ReachableBy.reviewSealed (h : Reachable s enc w) :
    ∀ d, d ∈ w.shared.catalog.documents → ReviewSealed d :=
  h.documents (fun _ => True) (fun _ _ _ _ _ => trivial) (fun _ _ hs => by cases hs)
    fun _ _ _ hd hr hc => hr.change hd hc

/-! ### Deletions -/

/-- The rows that a deletion names belong to the document and to its target. -/
theorem validateDeletionBinding_ok {revision : Option PreparedRevision}
    {publication : Option PublicationRecord} {active : Text 255}
    (hr : ∀ r, revision = some r → r ∈ d.preparedRevisions ∧
      r.identity.activeQdrantCollection = active)
    (hp : ∀ p, publication = some p → p ∈ d.publications ∧
      some p.preparedRevisionId = revision.map (·.id) ∧ p.activeQdrantCollection = active) :
    validateDeletionBinding d (revision.map (·.id)) (publication.map (·.id)) active = .ok () := by
  have hrevision : ∀ r, revision = some r →
      (d.revision? r.id).any (·.identity.activeQdrantCollection = active) = true := by
    intro r he
    rw [Document.revision?, Table.lookup_of_mem (hr r he).1, Option.any_some]
    exact decide_eq_true (hr r he).2
  have hpublication : ∀ p, publication = some p → (d.publications.lookup p.id).any (fun p =>
      some p.preparedRevisionId = revision.map (·.id) && p.activeQdrantCollection = active) =
        true := by
    intro p he
    rw [Table.lookup_of_mem (hp p he).1, Option.any_some, Bool.and_eq_true]
    exact ⟨decide_eq_true (hp p he).2.1,decide_eq_true (hp p he).2.2⟩
  cases hrev : revision with
  | none =>
    cases hpub : publication with
    | none => rfl
    | some p =>
      rw [hrev] at hpublication
      exact require_eq_ok.2 (hpublication p hpub)
  | some r =>
    cases hpub : publication with
    | none => exact bind_eq_ok.2 ⟨(),require_eq_ok.2 (hrevision r hrev),rfl⟩
    | some p =>
      rw [hrev] at hpublication
      exact bind_eq_ok.2 ⟨(),require_eq_ok.2 (hrevision r hrev),
        require_eq_ok.2 (hpublication p hpub)⟩

/-- The deletion target of a document at rest. -/
theorem DocumentInv.deletionTarget_ok (h : DocumentInv s now d) (hreview : ReviewSealed d)
    (hrest : atRest d.state) (configured : Text 255) :
    ∃ target revision publication,
      deletionTargetForState d configured = .ok (target,revision,publication) ∧
      validateDeletionBinding d (revision.map (·.id)) (publication.map (·.id)) target =
        .ok () := by
  have bound : ∀ {p : PublicationRecord} {r : PreparedRevision}, d.publications.rows = [p] →
      r ∈ d.preparedRevisions → r.id = p.preparedRevisionId →
      r.identity.activeQdrantCollection = p.activeQdrantCollection →
      validateDeletionBinding d (some r.id) (some p.id) p.activeQdrantCollection = .ok () := by
    intro p r hrows hr hid hactive
    have hr' := @validateDeletionBinding_ok d (some r) (some p) p.activeQdrantCollection
    refine hr' ?_ ?_
    · rintro x ⟨⟩
      exact ⟨hr,hactive⟩
    · rintro x ⟨⟩
      exact ⟨by rw [Table.mem_def, hrows]; exact List.mem_singleton_self p,
        congrArg some hid.symm,rfl⟩
  have own : ∀ {r : PreparedRevision}, r ∈ d.preparedRevisions →
      validateDeletionBinding d (some r.id) none r.identity.activeQdrantCollection = .ok () := by
    intro r hr
    have hr' := @validateDeletionBinding_ok d (some r) none r.identity.activeQdrantCollection
    refine hr' ?_ fun _ hp => by cases hp
    rintro x ⟨⟩
    exact ⟨hr,rfl⟩
  unfold deletionTargetForState
  rcases hrest with hs | hs | hs | hs <;> simp only [hs]
  · obtain ⟨p,r,hrows,hstatus,hr,hsealed,hid,hactive,hpoints,-⟩ := h.published (by rw [hs]; rfl)
    rw [hs] at hstatus
    have hrevision : d.revision? p.preparedRevisionId = some r := hid ▸ Table.lookup_of_mem hr
    have hbinding : verifiedReadyBinding d = .ok (r,p) := by
      simp only [verifiedReadyBinding, bind_eq_ok, require_eq_ok, orRaise_eq_ok, exists_const,
        pure_eq_ok]
      refine ⟨p,?_,r,hrevision,⟨hsealed,hactive,hpoints⟩,rfl⟩
      have hverified : p.status = .verified := hstatus
      simp only [hrows, hverified, List.filter_cons, decide_true, if_true, List.filter_nil]
      rfl
    refine ⟨p.activeQdrantCollection,some r,some p,?_,bound hrows hr hid hactive⟩
    rw [hbinding]
    rfl
  · cases hlatest : latestRevision d with
    | none => exact ⟨_,_,_,rfl,rfl⟩
    | some r => exact ⟨_,_,_,rfl,own (latestRevision_mem hlatest)⟩
  · obtain ⟨r₀,hr₀,hsealed₀⟩ := hreview hs
    obtain ⟨r,hr⟩ : ∃ r, latestSealedRevision d = some r := by
      cases hl : latestSealedRevision d with
      | some r => exact ⟨r,rfl⟩
      | none =>
        have hmem : r₀ ∈ d.preparedRevisions.rows.filter fun r => r.status = .sealed :=
          List.mem_filter.2 ⟨hr₀,decide_eq_true hsealed₀⟩
        rw [latestBy_eq_none.1 hl] at hmem
        cases hmem
    have hnone : d.publicationForRevision r.id = none := by
      simp [Document.publicationForRevision, h.publications.unpublished (by rw [hs]; rfl)]
    refine ⟨_,some r,none,?_,own (latestSealedRevision_mem hr)⟩
    simp only [hr, bind_eq_ok, orRaise_eq_ok]
    exact ⟨r,rfl,by rw [hnone]; rfl⟩
  · obtain ⟨p,r,hrows,hstatus,hr,hsealed,hid,hactive,hpoints,-⟩ := h.published (by rw [hs]; rfl)
    rw [hs] at hstatus
    have hne : p.status ≠ .verified := by
      rw [show p.status = .failed from hstatus]
      decide
    have hrevision : d.revision? p.preparedRevisionId = some r := hid ▸ Table.lookup_of_mem hr
    refine ⟨p.activeQdrantCollection,some r,some p,?_,bound hrows hr hid hactive⟩
    simp only [bind_eq_ok, require_eq_ok, orRaise_eq_ok, exists_const, pure_eq_ok]
    exact ⟨p,by rw [hrows]; rfl,r,hrevision,⟨hsealed,hne,hactive.symm,hpoints⟩,rfl⟩

/-- A delete request on a document at rest queues its deletion. -/
theorem CatalogInv.deletion_proceeds (h : CatalogInv s True now c) (hd : d ∈ c.documents)
    (hreview : ReviewSealed d) (hrest : atRest d.state) : DeletionProceeds s now c d actor := by
  have dinv := h.documents d hd
  obtain ⟨definition,hdef⟩ := Option.isSome_iff_exists.1 dinv.intake.collection
  obtain ⟨target,revision,publication,htarget,hbinding⟩ :=
    dinv.deletionTarget_ok hreview hrest definition.qdrantCollectionName
  have hname : target ≠ s.screening := by
    rw [(dinv.deletionTarget hdef htarget).1]
    exact s.name_ne_screening (Settings.enabledCollection?_mem hdef)
  have hprogress : d.deletionProgress = none := (dinv.deletion.live (by
    rcases hrest with hs | hs | hs | hs <;> rw [hs] <;> rfl)).1
  have hfree : d.state ∉ [DocumentState.deleting,.deleteFailed,.rejected,.cancelled,.deleted] := by
    rcases hrest with hs | hs | hs | hs <;> rw [hs] <;> decide
  let d' : Document := {d.clearFailure with
    deletionProgress := some (freshProgress .deleted target s.screening (revision.map (·.id))
      (publication.map (·.id)))
    state := .deleting, terminalDisposition := some .deleted}
  let o := newOperation now d' .delete .high (revision.map (·.id)) none .queued
  have hbegin : beginDeletion now c d .deleted target s.screening (revision.map (·.id))
      (publication.map (·.id)) = .ok (o,d'.putOperation o) := by
    simp only [beginDeletion, hbinding, hprogress, bind_eq_ok, require_eq_ok, exists_const]
    exact ⟨hname,trivial,hfree,enqueueOperation_eq rfl (by simp) rfl⟩
  refine ⟨⟨d'.putOperation o,o,c.put (d'.putOperation o)⟩,?_,Or.inl rfl⟩
  have hrequest : requestDeletion now definition.qdrantCollectionName s.screening c d.id
      (reservation actor) actor = .ok ⟨d'.putOperation o,o,c.put (d'.putOperation o)⟩ := by
    simp only [requestDeletion, requireReservation, reservation, getDocumentForUpdate, bind_eq_ok,
      require_eq_ok, orRaise_eq_ok, exists_const]
    refine ⟨⟨trivial,trivial⟩,d,Catalog.document?_of_mem hd,?_⟩
    rcases hrest with hs | hs | hs | hs <;> rw [hs] <;>
      simp only [bind_eq_ok, Prod.exists] <;>
      exact ⟨target,revision,publication,htarget,o,_,hbegin,rfl⟩
  simp only [deleteDocument, bind_eq_ok, orRaise_eq_ok]
  exact ⟨d,Catalog.document?_of_mem hd,definition,hdef,hrequest⟩

/-- What a delete request on a failed deletion returns. -/
theorem CatalogInv.deletion_again_iff (h : CatalogInv s True now c) (hd : d ∈ c.documents)
    (hs : d.state = .deleteFailed) {m : MutationOutcome} :
    deleteDocument s now d.id actor c = .ok m ↔ d.terminalDisposition = some .deleted ∧
      ∃ o, latestDeletionOperation c d.id = some o ∧ m = ⟨d,o,c⟩ := by
  obtain ⟨definition,hdef⟩ := Option.isSome_iff_exists.1 (h.documents d hd).intake.collection
  have hfound := Catalog.document?_of_mem hd
  constructor
  · intro hm
    simp only [deleteDocument, requestDeletion, requireReservation, reservation,
      getDocumentForUpdate, bind_eq_ok, require_eq_ok, orRaise_eq_ok, exists_const] at hm
    obtain ⟨x₀,hx₀,definition₀,hdef₀,-,x,hx,hm⟩ := hm
    cases hx.symm.trans hfound
    rw [hs] at hm
    simp only [bind_eq_ok, require_eq_ok, orRaise_eq_ok, exists_const, pure_eq_ok] at hm
    obtain ⟨hdeleted,o,ho,hm⟩ := hm
    exact ⟨hdeleted,o,ho,hm.symm⟩
  · rintro ⟨hdeleted,o,ho,rfl⟩
    simp only [deleteDocument, requestDeletion, requireReservation, reservation,
      getDocumentForUpdate, bind_eq_ok, require_eq_ok, orRaise_eq_ok, exists_const]
    refine ⟨d,hfound,definition,hdef,⟨trivial,trivial⟩,d,hfound,?_⟩
    rw [hs]
    simp only [bind_eq_ok, require_eq_ok, orRaise_eq_ok, exists_const, pure_eq_ok]
    exact ⟨hdeleted,o,ho,rfl⟩

/-- The operation behind a deletion belongs to the document or to the one that replaces it. -/
theorem CatalogInv.latestDeletion_cases (h : CatalogInv s True now c) (hd : d ∈ c.documents)
    (hy : YieldsOnly d) (ho : latestDeletionOperation c d.id = some o) :
    (d.replacedByDocumentId = none ∧ o ∈ d.operations ∧ o.operationType = .delete) ∨
    ∃ i, i ∈ c.documents ∧ d.replacedByDocumentId = some i.id ∧ o ∈ i.operations ∧
      o.operationType = .publish ∧ o.replacementTargetDocumentId = some d.id := by
  obtain ⟨hmem,hcases⟩ := List.mem_filter.1 (latestBy_mem ho)
  obtain ⟨i,hi,hoi⟩ := Catalog.mem_operations.1 hmem
  simp only [Bool.or_eq_true, Bool.and_eq_true, decide_eq_true_eq] at hcases
  rcases hcases with ⟨hid,htype⟩ | ⟨htarget,htype⟩
  · cases Table.eq_of_key_eq hi hd (((h.documents i hi).operations.valid o hoi).document.symm.trans hid)
    refine Or.inl ⟨?_,hoi,htype⟩
    by_contra hne
    exact hy (Option.isSome_iff_ne_none.2 hne) o hoi htype
  · obtain ⟨t,ht,htid,hr⟩ := h.link.replaced i hi d.id ⟨o,hoi,htarget⟩
    cases Table.eq_of_key_eq ht hd htid
    exact Or.inr ⟨i,hi,hr,hoi,htype,htarget⟩

/-- The newest operation of a document is the latest deletion operation when all the others belong
to that document. -/
theorem OperationsInv.latestDeletion_newest {id : Uuid} (h : OperationsInv now i.id i.operations.rows)
    (ho : newest i = some o) (hmem : o ∈ c.operations.filter fun o =>
      (o.documentId = id && o.operationType = .delete) ||
      (o.replacementTargetDocumentId = some id && o.operationType = .publish))
    (hall : ∀ x, latestDeletionOperation c id = some x → x ∈ i.operations) :
    latestDeletionOperation c id = some o := by
  cases hl : latestDeletionOperation c id with
  | none =>
    rw [latestDeletionOperation, latestBy_eq_none] at hl
    rw [hl] at hmem
    cases hmem
  | some x =>
    have hx := hall x hl
    obtain ⟨rest,hrows⟩ := newest_eq_some.1 ho
    rw [Table.mem_def, hrows] at hx
    rcases List.mem_cons.1 hx with rfl | hx
    · rfl
    · have hlt : x.createdAt < o.createdAt := by
        have hp := h.ordered
        rw [hrows] at hp
        exact ((List.pairwise_cons.1 hp).1 x hx).1
      refine absurd (latestBy_le hl hmem) (not_le.2 ?_)
      rw [Prod.Lex.lt_iff]
      exact Or.inl hlt

/-- The operation behind a failed deletion is closed. -/
theorem CatalogInv.latestDeletion_closed (h : CatalogInv s True now c) (hd : d ∈ c.documents)
    (hy : YieldsOnly d) (hs : d.state = .deleteFailed)
    (ho : latestDeletionOperation c d.id = some o) : o.isOpen = false := by
  rw [← Bool.not_eq_true]
  intro hopen
  have howner : Owner c d o := by
    rcases h.latestDeletion_cases hd hy ho with ⟨-,hmem,-⟩ | ⟨i,hi,-,hmem,htype,htarget⟩
    · exact ⟨d,hd,hmem,hopen,Or.inl rfl⟩
    · exact ⟨i,hi,hmem,hopen,Or.inr ⟨htype,htarget,fun hc => by rw [hs] at hc; cases hc⟩⟩
  have hbusy := h.busy_of_owner hd howner
  rw [hs] at hbusy
  cases hbusy

/-- The operation behind a failed deletion that can be retried has failed. -/
theorem CatalogInv.latestDeletion_failed (h : CatalogInv s True now c) (hd : d ∈ c.documents)
    (hy : YieldsOnly d) (hs : d.state = .deleteFailed) (hresumes : RetryResumes c d) :
    ∃ o, latestDeletionOperation c d.id = some o ∧ o.state = .failed := by
  have dinv := h.documents d hd
  cases hr : d.replacedByDocumentId with
  | none =>
    obtain ⟨o,ho,-,htype,hfailed,-⟩ := dinv.failed_operation
      (by rw [hs, hr]; rfl : expected d.state d.replacedByDocumentId.isSome = (.delete,.failed))
    refine ⟨o,dinv.operations.latestDeletion_newest ho (List.mem_filter.2 ⟨?_,?_⟩) ?_,hfailed⟩
    · exact Catalog.mem_operations.2 ⟨d,hd,mem_of_newest ho⟩
    · simp [(dinv.operations.valid o (mem_of_newest ho)).document, htype]
    · intro x hx
      rcases h.latestDeletion_cases hd hy hx with ⟨-,hmem,-⟩ | ⟨i,-,hi,-⟩
      · exact hmem
      · rw [hr] at hi
        cases hi
  | some id =>
    unfold RetryResumes at hresumes
    rw [hs, hr] at hresumes
    obtain ⟨i,hi,rfl,histate,-⟩ := hresumes
    have iinv := h.documents i hi
    have howns := h.owns hi hd hr
    obtain ⟨o,ho,-,htype,hfailed,-⟩ := iinv.failed_operation
      (by rw [histate]; rfl : expected i.state i.replacedByDocumentId.isSome = (.publish,.failed))
    have htarget := iinv.target_eq howns.targets (mem_of_newest ho) htype
    refine ⟨o,iinv.operations.latestDeletion_newest ho (List.mem_filter.2 ⟨?_,?_⟩) ?_,hfailed⟩
    · exact Catalog.mem_operations.2 ⟨i,hi,mem_of_newest ho⟩
    · simp [htarget, htype]
    · intro x hx
      rcases h.latestDeletion_cases hd hy hx with ⟨hnone,-⟩ | ⟨j,hj,hji,hmem,-⟩
      · rw [hr] at hnone
        cases hnone
      · cases Table.eq_of_key_eq hj hi (Option.some.inj (hji.symm.trans hr))
        exact hmem

/-- In every reachable catalog the advertised actions of a document are accepted exactly when
its failure happened to a started operation and its failed deletion is a verified one. -/
theorem advertised_actions_accepted (h : Reachable s enc w)
    (hd : d ∈ w.shared.catalog.documents) :
    (∀ actor, ActionsAccepted s w.shared.now w.shared.catalog d actor) ↔
      ActionsSound w.shared.catalog d := by
  have hinv := h.catalog
  have hy := h.yieldsOnly d hd
  constructor
  · intro haccepted
    obtain ⟨hretry,hdelete⟩ := haccepted sampleOperator
    constructor
    · intro hfailed hr
      exact ((hinv.retry_accepts_iff hd).1
        (hretry.1 (retry_mem_allowedActions.2 ⟨hfailed,hr⟩))).2.2
    · intro hs
      obtain ⟨m,hm,hproceeds⟩ := hdelete (delete_mem_allowedActions.2 (Or.inr hs))
      obtain ⟨hdeleted,o,ho,rfl⟩ := (hinv.deletion_again_iff hd hs).1 hm
      rcases hproceeds with hopen | ⟨-,haccepts⟩
      · rw [hinv.latestDeletion_closed hd hy hs ho] at hopen
        cases hopen
      · exact ⟨hdeleted,((hinv.retry_accepts_iff hd).1 haccepts).2.1⟩
  · rintro ⟨hretry,hdelete⟩ actor
    constructor
    · rw [retry_mem_allowedActions, hinv.retry_accepts_iff hd]
      exact ⟨fun hf => ⟨hf.1,hf.2,hretry hf.1 hf.2⟩,fun hf => ⟨hf.1,hf.2.1⟩⟩
    · intro hmem
      rcases delete_mem_allowedActions.1 hmem with hrest | hs
      · exact hinv.deletion_proceeds hd (h.reviewSealed d hd) hrest
      · obtain ⟨hdeleted,hr⟩ := hdelete hs
        have hfailedState : failedState d.state = true := by
          rw [hs]
          rfl
        have hresumes := hretry hfailedState hr
        obtain ⟨o,ho,hfailed⟩ := hinv.latestDeletion_failed hd hy hs hresumes
        exact ⟨_,(hinv.deletion_again_iff hd hs).2 ⟨hdeleted,o,ho,rfl⟩,
          Or.inr ⟨hfailed,(hinv.retry_accepts_iff hd).2 ⟨hfailedState,hr,hresumes⟩⟩⟩

/-! ### A cancelled document whose purge fails -/

/-- The review of a second document ends with its cancellation, and the purge fails. -/
def cancelling : List Cue :=
  .act (uploadOf "old") :: turnOf smoothly ++ turnOf smoothly ++
  .act (uploadOf "new") :: turnOf findsFirst ++
  .act (.decide ⟨uuid4 72 0,uuid4 77 0,.cancel,none,sampleOperator⟩) :: turnOf failsDeletes

/-- A failed purge of a cancelled document advertises a deletion that is refused. -/
theorem advertised_deletion_refused : ∃ (w : World) (d : Document),
    Reachable booksSettings plainEncoding w ∧ d ∈ w.shared.catalog.documents ∧
    .delete ∈ allowedActions d ∧ ∀ actor,
      ¬ Accepts (deleteDocument booksSettings w.shared.now d.id actor w.shared.catalog) := by
  obtain ⟨w,d,hw,hd,ht⟩ := play_document booksSettings plainEncoding (fun _ _ => True) cancelling
    (fun d => d.state = .deleteFailed && d.terminalDisposition = some .cancelled)
    (fun _ _ _ => trivial) (fun _ _ _ => trivial) (by decide +kernel)
  rw [Bool.and_eq_true, decide_eq_true_eq, decide_eq_true_eq] at ht
  refine ⟨w,d,hw,hd,delete_mem_allowedActions.2 (Or.inr ht.1),?_⟩
  rintro actor ⟨m,hm⟩
  have hdeleted := ((hw.catalog.deletion_again_iff hd ht.1).1 hm).1
  rw [ht.2] at hdeleted
  cases hdeleted

/-- A failed deletion can be retried and asked for again. -/
theorem advertised_actions_accepted_failing : ∃ (w : World) (d : Document),
    d ∈ w.shared.catalog.documents ∧ d.state = .deleteFailed ∧
    ∀ actor, ActionsAccepted booksSettings w.shared.now w.shared.catalog d actor := by
  obtain ⟨w,d,hw,hd,ht⟩ := play_document booksSettings plainEncoding (fun _ _ => True)
    (.act (uploadOf "old") :: turnOf smoothly ++ turnOf smoothly ++
      .act (.delete (uuid4 0 0) sampleOperator) :: turnOf failsDeletes)
    (fun d => d.state = .deleteFailed && d.terminalDisposition = some .deleted &&
      d.failureRetryable && d.replacedByDocumentId = none &&
      (newest d).all fun o => o.phase ≠ .queued)
    (fun _ _ _ => trivial) (fun _ _ _ => trivial) (by decide +kernel)
  simp only [Bool.and_eq_true, decide_eq_true_eq] at ht
  obtain ⟨⟨⟨⟨hs,hdeleted⟩,hr⟩,hfree⟩,hphase⟩ := ht
  refine ⟨w,d,hd,hs,(advertised_actions_accepted hw hd).2 ⟨fun _ _ => ?_,fun _ => ⟨hdeleted,hr⟩⟩⟩
  refine Started.resumes (fun o ho => ?_) fun _ => hfree
  rw [ho, Option.all_some, decide_eq_true_eq] at hphase
  exact hphase

end Lifecycle
end PdfBridge
