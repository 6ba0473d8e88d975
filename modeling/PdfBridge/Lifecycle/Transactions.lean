import PdfBridge.Lifecycle.Mutations
import PdfBridge.Lifecycle.Stages
import PdfBridge.Managers.WorkerRequests

/-! The transactions of a worker thread as transitions of the catalog. -/
namespace PdfBridge
namespace Lifecycle
open Intake Preparation Worker

variable {s : Settings} {enc : Encoding} {strands : Prop} {rejects : FailureCode → Prop}
  {now : Time} {worker : Uuid}
  {ref : OperationRef} {c c' : Catalog} {d d' t : Document} {o o' : WorkOperation}

/-- The running operation of a thread and its document. -/
structure Owned (ref : OperationRef) (c : Catalog) (d : Document) (o : WorkOperation) :
    Prop where
  document : d ∈ c.documents
  documentId : d.id = ref.documentId
  operation : o ∈ d.operations
  operationId : o.id = ref.operationId
  running : o.state = .running

theorem ownedOperation_ok {e : ServiceError} (h : ownedOperation worker ref c e = .ok (d,o)) :
    Owned ref c d o := by
  simp only [ownedOperation, bind_eq_ok, orRaise_eq_ok, require_eq_ok, exists_const, pure_eq_ok,
    Prod.mk.injEq] at h
  obtain ⟨d₁,hd,o₁,ho,⟨hr,-⟩,rfl,rfl⟩ := h
  exact ⟨Catalog.mem_of_document? hd,Catalog.id_of_document? hd,Table.mem_of_lookup ho,
    Table.key_of_lookup ho,hr⟩

theorem Owned.isOpen (h : Owned ref c d o) : o.isOpen = true := by
  simp [WorkOperation.isOpen, h.running]

/-- A running operation is the newest one of its document. -/
theorem Owned.newest (h : Owned ref c d o) (hinv : CatalogInv s strands now c) :
    newest d = some o ∧ Standing d o :=
  (hinv.documents d h.document).state_of_isOpen h.operation h.isOpen

theorem Owned.not_replaced (h : Owned ref c d o) (hinv : CatalogInv s strands now c) :
    d.replacedByDocumentId = none := by
  have dinv := hinv.documents d h.document
  rcases (h.newest hinv).2.pending h.isOpen with ⟨hs,-⟩ | ⟨hs,-⟩ | ⟨-,hr,-⟩
  · exact (dinv.deletion.live (by rw [hs]; rfl)).2.replaced
  · exact (dinv.deletion.live (by rw [hs]; rfl)).2.replaced
  · exact hr

/-! ### Ended operations -/

theorem settle_succeed (now : Time) (phase : OperationPhase) (o : WorkOperation) :
    Settle o (succeed now phase o) := by
  unfold succeed setOperationPhase
  split <;> exact ⟨rfl,rfl,rfl,rfl,rfl,rfl,rfl,rfl,fun _ => rfl,Or.inl rfl⟩

@[simp] theorem succeed_state (phase : OperationPhase) (o : WorkOperation) :
    (succeed now phase o).state = .succeeded := rfl

theorem settle_failed (hopen : o.isOpen = true) (code : FailureCode) (message : Text 500)
    (retryable : Bool) : Settle o (failedOperation now code message retryable o) := by
  refine ⟨rfl,rfl,rfl,rfl,rfl,rfl,rfl,rfl,fun _ => rfl,Or.inr ⟨fun hs => ?_,rfl⟩⟩
  simp [WorkOperation.isOpen, hs] at hopen

/-! ### Phases and bindings -/

theorem setPhase_change {phase : OperationPhase} {u : Unit}
    (h : setPhase now worker ref phase c = .ok (u,c'))
    (hphase : ∀ d o, Owned ref c d o →
      allowedPhase o.operationType o.replacementTargetDocumentId.isSome phase = true) :
    CatalogChange s strands rejects now c c' := by
  simp only [setPhase, bind_eq_ok, Prod.exists, pure_eq_ok, Prod.mk.injEq] at h
  obtain ⟨d,o,howned,-,rfl⟩ := h
  have ho := ownedOperation_ok howned
  exact CatalogChange.still ho.document
    (Still.touch ho.operation (touch_setOperationPhase ho.isOpen (hphase d o ho)))

theorem bindRevision_change {revisionId : Uuid} {u : Unit}
    (h : bindRevision worker ref revisionId c = .ok (u,c'))
    (htype : ∀ d o, Owned ref c d o → o.operationType = .preflight) :
    CatalogChange s strands rejects now c c' := by
  simp only [bindRevision, bind_eq_ok, orRaise_eq_ok, Prod.exists, pure_eq_ok,
    Prod.mk.injEq] at h
  obtain ⟨d,o,howned,r,-,-,rfl⟩ := h
  have ho := ownedOperation_ok howned
  exact CatalogChange.still ho.document
    (Still.touch ho.operation (touch_bindRevision ho.isOpen (htype d o ho) _))

/-! ### Failure -/

/-- The document that holds a failing operation. -/
theorem fail_change (hinv : CatalogInv s strands now c) (ho : Owned ref c d o)
    {code : FailureCode} {message : Text 500} {retryable : Bool}
    {outbox : List IndexOutboxEntry} :
    Change s rejects now d {failDocument o code message retryable
      (d.putOperation (failedOperation now code message retryable o)) with outbox := outbox} :=
  Change.fail (ho.newest hinv).1 ho.isOpen (settle_failed ho.isOpen code message retryable) rfl
    code message outbox

/-- A failing replacement target: its cleanup was running, or it has ended. -/
theorem failReplacementTarget_change {code : FailureCode} {message : Text 500}
    {retryable : Bool} (howned : t.replacedByDocumentId.isSome = true) :
    Change s rejects now t (failPendingOutbox code message
      (failReplacementTarget code message retryable t)) := by
  unfold failReplacementTarget
  split
  · rename_i hs
    exact Change.failYielded hs howned code message retryable _
  · exact Change.index _

theorem failDocument_state {code : FailureCode} {message : Text 500} {retryable : Bool} :
    (failDocument o code message retryable d).failureRetryable = retryable ∧
    (o.operationType = .publish →
      (failDocument o code message retryable d).state = .publishFailed) ∧
    (o.operationType = .delete →
      (failDocument o code message retryable d).state = .deleteFailed) := by
  unfold failDocument
  refine ⟨?_,fun ht => ?_,fun ht => ?_⟩
  · cases o.operationType <;> rfl
  · rw [ht]; rfl
  · rw [ht]; rfl

/-- The failure of an operation without a replacement target. -/
theorem fail_alone (hinv : CatalogInv s strands now c) (ho : Owned ref c d o)
    {code : FailureCode} {message : Text 500} {retryable : Bool}
    (htarget : o.replacementTargetDocumentId = none) :
    CatalogChange s strands rejects now c (c.put (failPendingOutbox code message
      (failDocument o code message retryable
        (d.putOperation (failedOperation now code message retryable o))))) := by
  have dinv := hinv.documents d ho.document
  have hrows := failDocument_sameRows o code message retryable
    (d.putOperation (failedOperation now code message retryable o))
  refine CatalogChange.one ho.document (fail_change hinv ho) hrows.replaced
    (fun x hx _ => ?_) ?_ ?_
  · have hx' : x ∈ (failDocument o code message retryable
      (d.putOperation (failedOperation now code message retryable o))).decisions := hx
    rw [hrows.decisions] at hx'
    exact hx'
  · rw [ho.not_replaced hinv]
    exact fun hc => by cases hc
  · intro t ht htr hfits
    rcases (ho.newest hinv).2.pending ho.isOpen with ⟨hs,-⟩ | ⟨-,htype⟩ | ⟨hs,-,htype⟩
    · exact absurd (hinv.owns ho.document ht htr).targets
        (dinv.not_targets (by rw [hs]; rfl) _)
    · have := dinv.target_eq (hinv.owns ho.document ht htr).targets ho.operation htype
      rw [htarget] at this
      cases this
    · refine hfits.of_deletion (by rw [hs]; rfl) ?_
      show deletionState (failDocument o code message retryable _).state = true
      rw [failDocument_state.2.2 htype]
      rfl

/-- The failure of a replacement, together with the cleanup that it owns. -/
theorem fail_pair (hinv : CatalogInv s strands now c) (ho : Owned ref c d o)
    (htype : o.operationType = .publish) (ht : t ∈ c.documents)
    (howned : t.replacedByDocumentId = some d.id) {code : FailureCode} {message : Text 500}
    {retryable : Bool} :
    CatalogChange s strands rejects now c ((c.put (failPendingOutbox code message
      (failReplacementTarget code message retryable t))).put (failPendingOutbox code message
        (failDocument o code message retryable
          (d.putOperation (failedOperation now code message retryable o))))) := by
  have hstate : d.state = .publishing := by
    rcases (ho.newest hinv).2.pending ho.isOpen with ⟨-,hp⟩ | ⟨hs,-⟩ | ⟨-,-,hp⟩
    · rw [htype] at hp; cases hp
    · exact hs
    · rw [htype] at hp; cases hp
  have hrows := failDocument_sameRows o code message retryable
    (d.putOperation (failedOperation now code message retryable o))
  have htrows : (failReplacementTarget code message retryable t).replacedByDocumentId =
      t.replacedByDocumentId ∧
      (failReplacementTarget code message retryable t).decisions = t.decisions := by
    unfold failReplacementTarget
    split <;> exact ⟨rfl,rfl⟩
  refine CatalogChange.pair ho.document ht howned (fail_change hinv ho)
    (failReplacementTarget_change (by rw [howned]; rfl)) hrows.replaced hrows.decisions htrows.1
    htrows.2 (by rw [hstate]; rfl) ?_
  -- the target failed with its owner, unless it has ended
  have hfits := (hinv.owns ho.document ht howned).fits
  have hnot : t.state ≠ .deleteFailed := by
    intro hf
    rcases hfits.2 hf with ⟨hc,-⟩ | ⟨-,hc⟩ <;> rw [hstate] at hc <;> cases hc
  show Fits strands (failDocument o code message retryable _)
    (failReplacementTarget code message retryable t)
  unfold failReplacementTarget
  split
  · exact ⟨(fun hc => by cases hc),fun _ => Or.inl ⟨failDocument_state.2.1 htype,
      failDocument_state.1⟩⟩
  · rename_i hne
    exact ⟨fun hc => absurd hc hne,fun hc => absurd hc hnot⟩

theorem failOperation_change (hinv : CatalogInv s strands now c) {e : ServiceError} {u : Unit}
    (h : failOperation now ref e c = .ok (u,c')) : CatalogChange s strands rejects now c c' := by
  simp only [failOperation] at h
  split at h
  · cases h
    exact CatalogChange.same
  · rename_i hfound
    split at h
    · cases h
      exact CatalogChange.same
    · rename_i hrunning
      simp only [Option.bind_eq_some_iff, Option.map_eq_some_iff, Prod.mk.injEq] at hfound
      obtain ⟨d,hd,o,hfind,rfl,rfl⟩ := hfound
      have ho : Owned ref c d o := ⟨Catalog.mem_of_document? hd,Catalog.id_of_document? hd,
        Table.mem_of_lookup hfind,Table.key_of_lookup hfind,not_not.1 hrunning⟩
      rw [pure_eq_ok, Prod.mk.injEq] at h
      obtain ⟨-,rfl⟩ := h
      cases htarget : o.replacementTargetDocumentId with
      | none =>
        cases o.operationType <;> exact fail_alone hinv ho htarget
      | some id =>
        have htype := ((hinv.documents d ho.document).operations.valid o
          ho.operation).publish_of_target htarget
        obtain ⟨t,ht,hid,howned⟩ := hinv.link.replaced d ho.document id ⟨o,ho.operation,htarget⟩
        have hlookup : c.document? id = some t := hid ▸ Catalog.document?_of_mem ht
        rw [htype, Option.bind_some, hlookup]
        exact fail_pair hinv ho htype ht howned

/-! ### The end of a preflight -/

/-- Binding the newest operation before a deletion is queued leaves the same rows as binding it
when it ends. -/
theorem startDeletion_bound {b : WorkOperation} {p : DeletionProgress}
    (h : OperationsInv now d.id d.operations.rows) (ho : newest d = some o)
    (htype : o.operationType = .preflight) (hid : b.id = o.id)
    (hbtype : b.operationType = o.operationType) (hid' : o'.id = o.id)
    (code : Option FailureCode) :
    {startDeletion now (d.putOperation b) p with failureCode := code}.putOperation o' =
      {startDeletion now d p with failureCode := code}.putOperation o' := by
  obtain ⟨rest,hr⟩ := newest_eq_some.1 ho
  have hb : (d.putOperation b).operations.rows = b :: rest := rows_putOperation hr hid.symm
  have hnext : nextAttempt (d.putOperation b) .delete = nextAttempt d .delete := by
    unfold nextAttempt
    rw [hb, hr, List.filter_cons_of_neg (by simp [hbtype, htype]),
      List.filter_cons_of_neg (by simp [htype])]
  have hnew : newOperation now (d.putOperation b) .delete .high p.preparedRevisionId none .queued
      = newOperation now d .delete .high p.preparedRevisionId none .queued := by
    unfold newOperation
    rw [hnext]
    rfl
  generalize hx : newOperation now d .delete .high p.preparedRevisionId none .queued = x at hnew
  have hxid : x.id = uuid4 now 0 := by rw [← hx]; rfl
  have hfront : (d.operations.put x).rows = [x] ++ o :: rest := by
    have := h.rows_put_fresh (o := x) le_rfl hxid
    rw [hr] at this
    exact this
  have hfront' : ((d.operations.put b).put x).rows = [x] ++ b :: rest := by
    have hfresh : ∀ y ∈ (d.operations.put b).rows, y.id ≠ x.id := by
      intro y hy he
      have hy' : y ∈ b :: rest := hb ▸ hy
      have hmem : ∃ z ∈ d.operations.rows, z.id = y.id := by
        rw [hr]
        rcases List.mem_cons.1 hy' with rfl | hy'
        · exact ⟨o,List.mem_cons_self,hid.symm⟩
        · exact ⟨y,List.mem_cons_of_mem _ hy',rfl⟩
      obtain ⟨z,hz,hzy⟩ := hmem
      have hlt := h.fresh z hz
      have : z.createdAt = now := by
        have := (h.valid z hz).drawn.symm.trans (hzy.trans (he.trans hxid))
        exact congrArg Uuid.drawnAt this
      rw [this] at hlt
      exact lt_irrefl _ hlt
    rw [Table.rows_put_of_not_mem hfresh, show (d.operations.put b).rows = b :: rest from hb]
    rfl
  have htables : ((d.operations.put b).put x).put o' = (d.operations.put x).put o' := by
    apply Table.ext_rows
    rw [Table.rows_put_append hfront (hid'.symm), Table.rows_put_append hfront'
      (hid.trans hid'.symm)]
  show ({d.clearFailure with
      deletionProgress := some p, state := .deleting,
      terminalDisposition := some p.terminalDisposition, failureCode := code,
      operations := ((d.operations.put b).put (newOperation now (d.putOperation b) .delete .high
        p.preparedRevisionId none .queued)).put o'} : Document) =
    {d.clearFailure with
      deletionProgress := some p, state := .deleting,
      terminalDisposition := some p.terminalDisposition, failureCode := code,
      operations := (d.operations.put (newOperation now d .delete .high p.preparedRevisionId none
        .queued)).put o'}
  rw [hnew, hx, htables]

theorem Owned.preflighting (h : Owned ref c d o) (hinv : CatalogInv s strands now c)
    (htype : o.operationType = .preflight) : d.state = .preflighting := by
  rcases (h.newest hinv).2.pending h.isOpen with ⟨hs,-⟩ | ⟨-,hp⟩ | ⟨-,-,hp⟩
  · exact hs
  · rw [htype] at hp; cases hp
  · rw [htype] at hp; cases hp

theorem Owned.publishing (h : Owned ref c d o) (hinv : CatalogInv s strands now c)
    (htype : o.operationType = .publish) : d.state = .publishing := by
  rcases (h.newest hinv).2.pending h.isOpen with ⟨-,hp⟩ | ⟨hs,-⟩ | ⟨-,-,hp⟩
  · rw [htype] at hp; cases hp
  · exact hs
  · rw [htype] at hp; cases hp

/-- A change of a document without any link. -/
theorem CatalogChange.unlinked (hinv : CatalogInv s strands now c) (hd : d ∈ c.documents)
    (hu : unapproved d.state = true) (h : Change s rejects now d d')
    (hreplaced : d'.replacedByDocumentId = d.replacedByDocumentId)
    (hdecisions : d'.decisions = d.decisions) : CatalogChange s strands rejects now c (c.put d') := by
  have dinv := hinv.documents d hd
  refine CatalogChange.one hd h hreplaced (fun x hx _ => hdecisions ▸ hx) ?_ ?_
  · have hlive : deletionState d.state = false := by
      cases hs : d.state <;> rw [hs] at hu <;> first | rfl | cases hu
    rw [(dinv.deletion.live hlive).2.replaced]
    exact fun hc => by cases hc
  · intro t ht htr
    exact absurd (hinv.owns hd ht htr).targets (dinv.not_targets hu _)

theorem queueRejectionCleanup_ok {reason : FailureCode} {active screening : Text 255}
    {revisionId : Option Uuid} (h : queueRejectionCleanup now c d reason active screening
      revisionId = .ok (o,d')) (hstate : d.state = .preflighting)
    (hp : d.deletionProgress = none) :
    d' = {startDeletion now d (freshProgress .rejected active screening revisionId none) with
      failureCode := some reason} := by
  simp only [queueRejectionCleanup, hstate, reduceCtorEq, or_self, if_false, bind_eq_ok,
    require_eq_ok, exists_const, Prod.exists, pure_eq_ok, Prod.mk.injEq] at h
  obtain ⟨-,o₁,d₁,hbegin,-,rfl⟩ := h
  rw [beginDeletion_ok hbegin hp]

/-- A terminal rejection leaves the document in the purge that it starts, with its reason. -/
theorem acceptRejection_ok (hinv : CatalogInv s strands now c) {reason : FailureCode}
    {configuredActive screening : Text 255} {u : Unit}
    (h : acceptRejection now worker ref reason configuredActive screening c = .ok (u,c'))
    (htype : ∀ d o, Owned ref c d o → o.operationType = .preflight) :
    ∃ d', d' ∈ c'.documents ∧ d'.id = ref.documentId ∧ d'.state = .deleting ∧
      d'.terminalDisposition = some .rejected ∧ d'.failureCode = some reason := by
  simp only [acceptRejection, bind_eq_ok, Prod.exists, pure_eq_ok, Prod.mk.injEq] at h
  obtain ⟨d,o,howned,o₁,d',hqueue,-,rfl⟩ := h
  have ho := ownedOperation_ok howned
  have hstate := ho.preflighting hinv (htype d o ho)
  have hlive := (hinv.documents d ho.document).deletion.live (by rw [hstate]; rfl)
  obtain rfl := queueRejectionCleanup_ok hqueue hstate hlive.1
  exact ⟨_,mem_put.2 (Or.inl rfl),ho.documentId,rfl,rfl,rfl⟩

theorem acceptRejection_change (hinv : CatalogInv s strands now c) {reason : FailureCode}
    {configuredActive : Text 255} {u : Unit}
    (h : acceptRejection now worker ref reason configuredActive s.screening c = .ok (u,c'))
    (hrejects : rejects reason) (htype : ∀ d o, Owned ref c d o → o.operationType = .preflight ∧
      ∃ definition, s.enabledCollection? d.intake.collectionKey = some definition ∧
        configuredActive = definition.qdrantCollectionName) :
    CatalogChange s strands rejects now c c' := by
  simp only [acceptRejection, bind_eq_ok, Prod.exists, pure_eq_ok, Prod.mk.injEq] at h
  obtain ⟨d,o,howned,o₁,d',hqueue,-,rfl⟩ := h
  have ho := ownedOperation_ok howned
  have dinv := hinv.documents d ho.document
  obtain ⟨hpreflight,definition,hdef,hactive⟩ := htype d o ho
  have hstate := ho.preflighting hinv hpreflight
  have hlive := dinv.deletion.live (by rw [hstate]; rfl)
  obtain rfl := queueRejectionCleanup_ok hqueue hstate hlive.1
  have hnewest := (ho.newest hinv).1
  have hfresh : FreshProgress s d (freshProgress .rejected
      (((latestRevision d).map (·.identity.activeQdrantCollection)).getD configuredActive)
      s.screening ((latestRevision d).map (·.id)) none) := by
    refine freshProgress_fresh ?_ ?_
    · cases hl : latestRevision d with
      | none => exact ⟨definition,hdef,hactive⟩
      | some r => exact dinv.revision_active (latestRevision_mem hl)
    · intro id hid
      obtain ⟨r,hr,hrid⟩ := Option.map_eq_some_iff.1 hid
      exact ⟨r,latestRevision_mem hr,hrid⟩
  have hsettle : Settle o (succeed now .complete
      {o with preparedRevisionId := (latestRevision d).map (·.id)}) := by
    have : Settle _ (succeed now .complete _) := settle_succeed now .complete
      {o with preparedRevisionId := (latestRevision d).map (·.id)}
    exact {this with
      revision := fun hne => absurd hpreflight hne
      phase := Or.inl rfl }
  have hchange : Change s rejects now d _ := Change.reject hstate hnewest hsettle rfl hfresh rfl hrejects
  rw [← startDeletion_bound (b := {o with preparedRevisionId := (latestRevision d).map (·.id)})
    dinv.operations hnewest hpreflight rfl rfl hsettle.id] at hchange
  exact CatalogChange.unlinked hinv ho.document (by rw [hstate]; rfl) hchange rfl rfl

theorem finishPreflight_change (hinv : CatalogInv s strands now c)
    {prepared : SealedPreparation} {u : Unit}
    (h : finishPreflight now worker ref prepared c = .ok (u,c')) :
    CatalogChange s strands rejects now c c' := by
  simp only [finishPreflight, bind_eq_ok, orRaise_eq_ok, require_eq_ok, exists_const,
    Prod.exists] at h
  obtain ⟨d,o,howned,r,hr,⟨-,hsealed⟩,hstate,h⟩ := h
  have ho := ownedOperation_ok howned
  have hrm : r ∈ d.preparedRevisions := Table.mem_of_lookup hr
  have hnewest := (ho.newest hinv).1
  have hu : unapproved d.state = true := by rw [hstate]; rfl
  split at h
  · simp only [queueClearPublication, hstate, reduceCtorEq, if_false, bind_eq_ok, require_eq_ok,
      exists_const, Prod.exists, pure_eq_ok, Prod.mk.injEq] at h
    obtain ⟨o₁,d',⟨⟨-,-,hclear⟩,d₁,hensure,henqueue⟩,-,rfl⟩ := h
    obtain ⟨-,points,hpoints,rfl⟩ := ensurePublicationRecord_ok hensure
      ((hinv.documents d ho.document).publications.unpublished hu)
    obtain ⟨-,-,-,-,rfl⟩ := enqueueOperation_ok henqueue
    exact CatalogChange.unlinked hinv ho.document hu (Change.approve hstate hnewest
      (settle_succeed now .complete o) rfl hrm hpoints hclear) rfl rfl
  · simp only [pure_eq_ok, Prod.mk.injEq] at h
    obtain ⟨-,rfl⟩ := h
    exact CatalogChange.unlinked hinv ho.document hu (Change.review hstate hnewest
      (settle_succeed now .awaitingDecision o) rfl hrm hsealed) rfl rfl

/-! ### Publication -/

theorem markUpserted_change (hinv : CatalogInv s strands now c) {revisionId : Uuid} {u : Unit}
    (h : markUpserted worker ref revisionId c = .ok (u,c'))
    (htype : ∀ d o, Owned ref c d o → o.operationType = .publish) :
    CatalogChange s strands rejects now c c' := by
  simp only [markUpserted, bind_eq_ok, orRaise_eq_ok, require_eq_ok, exists_const, Prod.exists,
    pure_eq_ok, Prod.mk.injEq] at h
  obtain ⟨d,o,howned,p,hp,-,-,rfl⟩ := h
  have ho := ownedOperation_ok howned
  exact CatalogChange.still ho.document ⟨Change.upsert (ho.publishing hinv (htype d o ho))
    (List.mem_of_find?_eq_some hp),rfl,rfl,rfl,rfl⟩

/-- The publication record with every proof of its verification. -/
def verifiedRecord (now : Time) (p : PublicationRecord) (points : ℕ) : PublicationRecord :=
  {p with
    status := .verified, verifiedPoints := some points, payloadRevisionVerified := true,
    vectorSchemaVerified := true, screeningZeroVerified := true, failureCode := none,
    verifiedAt := some now}

/-- What a finished publication has checked, and the document that it leaves. -/
theorem finishPublication_ok {revisionId : Uuid} {points : ℕ} {u : Unit}
    (h : finishPublication now worker ref revisionId points c = .ok (u,c')) :
    ∃ d o r p, Owned ref c d o ∧ d.revision? revisionId = some r ∧
      d.publicationForRevision revisionId = some p ∧ o.preparedRevisionId = some r.id ∧
      d.state = .publishing ∧ r.status = .sealed ∧ p.status = .upserted ∧
      p.expectedPoints = points ∧
      (∀ id t, o.replacementTargetDocumentId = some id → c.document? id = some t →
        t.state = .deleted) ∧
      c' = c.put ({(d.putPublication (verifiedRecord now p points)).clearFailure with
        state := .ready, readyAt := some now}.putOperation (succeed now .complete o)) := by
  simp only [finishPublication, bind_eq_ok, orRaise_eq_ok, require_eq_ok, exists_const,
    Prod.exists] at h
  obtain ⟨d,o,howned,r,hr,p,hp,⟨hbound,hstate,hsealed,hstatus,hpoints⟩,h⟩ := h
  refine ⟨d,o,r,p,ownedOperation_ok howned,hr,hp,hbound,hstate,hsealed,hstatus,hpoints,?_⟩
  split at h
  · rename_i htarget
    simp only [pure_eq_ok, Prod.mk.injEq, true_and] at h
    refine ⟨fun id t ht => ?_,h.symm⟩
    rw [htarget] at ht
    cases ht
  · rename_i id htarget
    simp only [bind_eq_ok, require_eq_ok, exists_const, pure_eq_ok, Prod.mk.injEq,
      true_and] at h
    refine ⟨fun id' t ht hlookup => ?_,h.2.symm⟩
    rw [htarget] at ht
    cases ht
    have hdone := h.1
    simp only [hlookup, Option.any_some, Bool.and_eq_true, decide_eq_true_eq] at hdone
    exact hdone.1.1

theorem finishPublication_change (hinv : CatalogInv s strands now c) {revisionId : Uuid}
    {points : ℕ} {u : Unit}
    (h : finishPublication now worker ref revisionId points c = .ok (u,c')) :
    CatalogChange s strands rejects now c c' := by
  obtain ⟨d,o,r,p,ho,hr,hp,-,hstate,-,-,hpoints,hreplaced,rfl⟩ := finishPublication_ok h
  have hpm : p ∈ d.publications := List.mem_of_find?_eq_some hp
  have hid : (verifiedRecord now p points).id = p.id := rfl
  have hchange : Change s rejects now d _ := Change.publish hstate (ho.newest hinv).1
    (settle_succeed now .complete o) rfl hpm hid rfl rfl rfl rfl
    (by simp [verifiedRecord, Api.verifiedSummaryValid, hpoints])
  refine CatalogChange.one ho.document hchange rfl (fun x hx _ => hx) ?_ ?_
  · rw [ho.not_replaced hinv]
    exact fun hc => by cases hc
  · intro t ht htr _
    -- the replaced document has reached its tombstone
    have htype : o.operationType = .publish :=
      (ho.newest hinv).2.type_eq (x := (.publish,.pending)) (by rw [hstate]; rfl)
    have htarget := (hinv.documents d ho.document).target_eq
      (hinv.owns ho.document ht htr).targets ho.operation htype
    exact Fits.of_terminal (by
      rw [hreplaced t.id t htarget (Catalog.document?_of_mem ht)]
      rfl)

/-! ### Verified deletion -/

/-- What a running operation cleans up: its own document, or the one that it replaces. -/
theorem Owned.cleanup (ho : Owned ref c d o) (hinv : CatalogInv s strands now c)
    (ht : t ∈ c.documents) (hw : worksOn o t.id) {p : DeletionProgress}
    (hp : t.deletionProgress = some p) :
    (t = d ∧ o.operationType = .delete ∧ d.state = .deleting) ∨
    (d.id ≠ t.id ∧ o.operationType = .publish ∧ o.replacementTargetDocumentId = some t.id ∧
      t.replacedByDocumentId = some d.id ∧ d.state = .publishing) := by
  have dinv := hinv.documents d ho.document
  have hvalid := dinv.operations.valid o ho.operation
  have live : ∀ {x}, x ∈ c.documents → deletionState x.state = false →
      x.deletionProgress = none := fun hx hs => ((hinv.documents _ hx).deletion.live hs).1
  rcases hw with hown | htarget
  · cases Table.eq_of_key_eq ht ho.document (hown.symm.trans hvalid.document)
    rcases (ho.newest hinv).2.pending ho.isOpen with ⟨hs,-⟩ | ⟨hs,-⟩ | ⟨hs,-,htype⟩
    · rw [live ht (by rw [hs]; rfl)] at hp; cases hp
    · rw [live ht (by rw [hs]; rfl)] at hp; cases hp
    · exact Or.inl ⟨rfl,htype,hs⟩
  · have htype := hvalid.publish_of_target htarget
    obtain ⟨x,hx,hxid,howned⟩ := hinv.link.replaced d ho.document t.id
      ⟨o,ho.operation,htarget⟩
    cases Table.eq_of_key_eq hx ht hxid
    exact Or.inr ⟨(hinv.owns ho.document ht howned).ne,htype,htarget,howned,
      ho.publishing hinv htype⟩

/-- A cleanup moves the operation and the checkpoint of the document that it deletes. -/
theorem putDeletion_change (hinv : CatalogInv s strands now c) (ho : Owned ref c d o)
    (ht : t ∈ c.documents) (hw : worksOn o t.id) {p : DeletionProgress}
    (hp : t.deletionProgress = some p) {phase : DeletionPhase} {f : Document → Document}
    (hf : ∀ operations : Table WorkOperation.id,
      List.Forall₂ Touch t.operations.rows operations.rows →
      Still s rejects now t (f {t with operations := operations})) :
    CatalogChange s strands rejects now c
      (putDeletion c d (setOperationPhase now o (.deletion phase)) t.id f) := by
  have hself := hf t.operations (forall₂_touch_refl _)
  rcases ho.cleanup hinv ht hw hp with ⟨rfl,htype,-⟩ | ⟨hne,htype,htarget,howned,hstate⟩
  · have htouch : Touch o (setOperationPhase now o (.deletion phase)) :=
      touch_setOperationPhase ho.isOpen (by rw [htype]; rfl)
    have hchange := hf _ (forall₂_touch_put ho.operation htouch)
    have hlookup : (c.put (t.putOperation (setOperationPhase now o (.deletion phase)))).document?
        t.id = some (t.putOperation (setOperationPhase now o (.deletion phase))) :=
      Catalog.document?_put_self c (t.putOperation _)
    simp only [putDeletion, hlookup]
    have hput : (c.put (t.putOperation (setOperationPhase now o (.deletion phase)))).put
        (f (t.putOperation (setOperationPhase now o (.deletion phase)))) =
        c.put (f (t.putOperation (setOperationPhase now o (.deletion phase)))) :=
      congrArg Catalog.mk (Table.put_put hchange.change.id.symm)
    rw [hput]
    exact CatalogChange.still ht hchange
  · have htouch : Touch o (setOperationPhase now o (.deletion phase)) :=
      touch_setOperationPhase ho.isOpen (by rw [htype, htarget]; rfl)
    have hlookup : (c.put (d.putOperation (setOperationPhase now o (.deletion phase)))).document?
        t.id = some t := by
      rw [Catalog.document?_put_of_ne (d := d.putOperation _) hne]
      exact Catalog.document?_of_mem ht
    simp only [putDeletion, hlookup]
    have hcomm : (c.put (d.putOperation (setOperationPhase now o (.deletion phase)))).put (f t) =
        (c.put (f t)).put (d.putOperation (setOperationPhase now o (.deletion phase))) :=
      congrArg Catalog.mk (Table.put_comm ho.document rfl ht hself.change.id.symm
        (fun he => hne (he.trans hself.change.id)))
    rw [hcomm]
    refine CatalogChange.pair ho.document ht howned
      (Change.touch _ (forall₂_touch_put ho.operation htouch)) hself.change rfl rfl
      hself.replaced hself.decisions (by rw [hstate]; rfl) ?_
    have hfits := (hinv.owns ho.document ht howned).fits
    unfold Fits
    rw [show (f t).state = t.state from hself.state,
      show (f t).failureRetryable = t.failureRetryable from hself.retryable]
    exact hfits

theorem Still.progress {p : DeletionProgress} (hp : d.deletionProgress = some p)
    (p' : DeletionProgress) (h : Progress p p') (operations : Table WorkOperation.id)
    (ht : List.Forall₂ Touch d.operations.rows operations.rows) :
    Still s rejects now d {d with operations := operations, deletionProgress := some p'} :=
  ⟨Change.progress hp h operations ht,rfl,rfl,rfl,rfl⟩

theorem countDeletionAttempt_change {documentId : Uuid} {e : ServiceError} {u : Unit}
    (h : onDocument c documentId e countDeletionAttempt = .ok (u,c')) :
    CatalogChange s strands rejects now c c' := by
  simp only [onDocument, countDeletionAttempt, bind_eq_ok, orRaise_eq_ok, Prod.exists,
    pure_eq_ok, Prod.mk.injEq] at h
  obtain ⟨d,hd,u',d',⟨p,hp,-,rfl⟩,-,rfl⟩ := h
  exact CatalogChange.still (Catalog.mem_of_document? hd)
    (Still.progress hp {p with attempts := p.attempts + 1} {Progress.refl p with} _
      (forall₂_touch_refl _))

theorem setDeletionPhase_change (hinv : CatalogInv s strands now c) {documentId : Uuid}
    {phase : DeletionPhase} {u : Unit}
    (h : setDeletionPhase now worker ref documentId phase c = .ok (u,c')) :
    CatalogChange s strands rejects now c c' := by
  simp only [setDeletionPhase, bind_eq_ok, orRaise_eq_ok, require_eq_ok, exists_const,
    Prod.exists, pure_eq_ok, Prod.mk.injEq] at h
  obtain ⟨d,o,howned,t,ht,p,hp,hw,-,rfl⟩ := h
  cases Catalog.id_of_document? ht
  exact putDeletion_change hinv (ownedOperation_ok howned) (Catalog.mem_of_document? ht) hw hp
    (Still.progress hp {p with phase := phase} {Progress.refl p with})

theorem recordZeroVerification_change (hinv : CatalogInv s strands now c) {documentId : Uuid}
    {target : IndexTarget} {u : Unit}
    (h : recordZeroVerification now worker ref documentId target c = .ok (u,c'))
    (hworks : ∀ d o, Owned ref c d o → worksOn o documentId) :
    CatalogChange s strands rejects now c c' := by
  simp only [recordZeroVerification, bind_eq_ok, orRaise_eq_ok, Prod.exists] at h
  obtain ⟨d,o,howned,t,ht,p,hp,h⟩ := h
  have ho := ownedOperation_ok howned
  have hw := hworks d o ho
  cases Catalog.id_of_document? ht
  cases target with
  | active =>
    simp only [pure_eq_ok, Prod.mk.injEq] at h
    obtain ⟨-,rfl⟩ := h
    exact putDeletion_change hinv ho (Catalog.mem_of_document? ht) hw hp
      (Still.progress hp
        {p with activeZeroVerifiedAt := some now, phase := .deleteScreeningPoints}
        {Progress.refl p with activeZero := fun _ => rfl})
  | screening =>
    simp only [bind_eq_ok, require_eq_ok, exists_const, pure_eq_ok, Prod.mk.injEq] at h
    obtain ⟨hactive,-,rfl⟩ := h
    exact putDeletion_change hinv ho (Catalog.mem_of_document? ht) hw hp
      (Still.progress hp
        {p with screeningZeroVerifiedAt := some now, phase := .verifyScreeningZero}
        {Progress.refl p with
          screeningZero := fun _ => Or.inr hactive
          kept := fun _ => rfl})

theorem purgeContentRows_change (hinv : CatalogInv s strands now c) {documentId : Uuid}
    {b : PurgeBinding} {u : Unit}
    (h : purgeContentRows now worker ref documentId b c = .ok (u,c'))
    (hworks : ∀ d o, Owned ref c d o → worksOn o documentId) :
    CatalogChange s strands rejects now c c' := by
  simp only [purgeContentRows, bind_eq_ok, orRaise_eq_ok, require_eq_ok, exists_const,
    Prod.exists, pure_eq_ok, Prod.mk.injEq] at h
  obtain ⟨d,o,howned,t,ht,p,hp,⟨-,-,hzero⟩,-,rfl⟩ := h
  have ho := ownedOperation_ok howned
  have hw := hworks d o ho
  cases Catalog.id_of_document? ht
  exact putDeletion_change hinv ho (Catalog.mem_of_document? ht) hw hp fun operations htouch =>
    ⟨Change.purge hp hzero b.revisionIds operations htouch,rfl,rfl,rfl,rfl⟩

/-- A tombstone is committed once, over a purged checkpoint. -/
theorem commitTombstone_ok {reason : Option FailureCode} {actorId : Text 255}
    (h : commitTombstone now d reason actorId = .ok d') :
    (d' = d ∧ d.tombstone.isSome = true) ∨
    (d.tombstone = none ∧ ∃ p t, d.deletionProgress = some p ∧
      p.storagePurgedAt.isSome = true ∧ t.disposition = p.terminalDisposition ∧
      t.reasonCode = reason ∧ d' = tombstoned now d p reason t) := by
  unfold commitTombstone at h
  split at h
  · rename_i existing hexisting
    simp only [bind_eq_ok, require_eq_ok, exists_const, pure_eq_ok] at h
    exact Or.inl ⟨h.2.symm,by rw [hexisting]; rfl⟩
  · rename_i hnone
    simp only [bind_eq_ok, orRaise_eq_ok, require_eq_ok, exists_const, pure_eq_ok] at h
    obtain ⟨-,p,hp,hpurged,-,-,-,-,-,rfl⟩ := h
    exact Or.inr ⟨hnone,p,_,hp,hpurged,rfl,rfl,rfl⟩

theorem ProgressInv.tombstone_pending {p : DeletionProgress} (h : ProgressInv s d p)
    (hs : Api.terminalState d.state = false) : d.tombstone = none := by
  refine h.pending ?_
  by_contra hne
  have := h.tombstoned.1 (Option.isSome_iff_ne_none.2 hne)
  rw [this] at hs
  cases hd : p.terminalDisposition <;> rw [hd] at hs <;> cases hs

theorem commitDeletion_change (hinv : CatalogInv s strands now c) {documentId : Uuid}
    {actorId : Text 255} {u : Unit}
    (h : commitDeletion now worker ref documentId actorId c = .ok (u,c'))
    (hworks : ∀ d o, Owned ref c d o → worksOn o documentId) :
    CatalogChange s strands rejects now c c' := by
  simp only [commitDeletion, bind_eq_ok, orRaise_eq_ok, require_eq_ok, exists_const,
    Prod.exists, pure_eq_ok, Prod.mk.injEq] at h
  obtain ⟨d,o,howned,t,ht,p,hp,hpurged,t',hcommit,-,rfl⟩ := h
  have ho := ownedOperation_ok howned
  have hw := hworks d o ho
  cases Catalog.id_of_document? ht
  have htm := Catalog.mem_of_document? ht
  have tinv := hinv.documents t htm
  rcases ho.cleanup hinv htm hw hp with ⟨rfl,htype,hstate⟩ | ⟨hne,htype,htarget,howner,hstate⟩
  · -- the document's own deletion ends with its tombstone
    rw [if_pos ⟨htype,ho.documentId.symm⟩]
    have hnone := (tinv.deletion.of_some hp).tombstone_pending (by rw [hstate]; rfl)
    rcases commitTombstone_ok hcommit with ⟨-,hsome⟩ | ⟨-,q,x,hq,-,hx,hreason,rfl⟩
    · rw [hnone] at hsome
      cases hsome
    cases hp.symm.trans hq
    have hchange : Change s rejects now t _ := Change.buryOwn hp hpurged
      (ho.newest hinv).1 ho.isOpen (settle_succeed now .complete o) rfl hx hreason
    refine CatalogChange.one htm hchange rfl (fun x hx _ => hx) ?_ ?_
    · rw [ho.not_replaced hinv]
      exact fun hc => by cases hc
    · exact fun _ _ _ hfits => hfits.of_deletion (by rw [hstate]; rfl)
        (deletionState_toState p.terminalDisposition)
  · -- the incoming document goes on with its own publication
    rw [if_neg (fun hc => by rw [htype] at hc; cases hc.1)]
    rcases commitTombstone_ok hcommit with ⟨rfl,-⟩ | ⟨hnone,q,x,hq,-,hx,hreason,rfl⟩
    · exact CatalogChange.still htm ⟨Change.index t'.outbox,rfl,rfl,rfl,rfl⟩
    cases hp.symm.trans hq
    have hfits := (hinv.owns ho.document htm howner).fits
    have hdeleting : t.state = .deleting := by
      rcases (tinv.deletion.of_some hp).state with hs | hs | hs
      · exact hs
      · rcases hfits.2 hs with ⟨hi,-⟩ | ⟨-,hi⟩ <;> rw [hstate] at hi <;> cases hi
      · obtain ⟨x,hx,-⟩ := (tinv.deletion.of_some hp).tombstone
          ((tinv.deletion.of_some hp).tombstoned.2 hs)
        rw [hnone] at hx
        cases hx
    have hchange : Change s rejects now t _ := Change.bury hp hpurged hdeleting
      (by rw [howner]; rfl) hx hreason
    refine CatalogChange.one htm hchange rfl (fun x hx _ => hx) (fun _ => Or.inr ?_) ?_
    · show Api.terminalState p.terminalDisposition.toState = true
      cases p.terminalDisposition <;> rfl
    · exact fun _ _ _ hfits => hfits.of_deletion (by rw [hdeleting]; rfl)
        (deletionState_toState p.terminalDisposition)

end Lifecycle
end PdfBridge
