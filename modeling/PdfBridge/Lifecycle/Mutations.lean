import PdfBridge.Lifecycle.CatalogChange

/-! The operator mutations as transitions of the catalog. -/
namespace PdfBridge
namespace Lifecycle
open Intake Api

variable {s : Settings} {strands : Prop} {rejects : FailureCode → Prop} {now : Time} {c c' : Catalog} {d d' : Document}

/-! ### The parts of the mutations -/

theorem enqueueOperation_ok {type : OperationType} {priority : OperationPriority}
    {revisionId target : Option Uuid} {phase : OperationPhase} {o : WorkOperation}
    (h : enqueueOperation now d type priority revisionId target phase = .ok (o,d')) :
    priorityForOperation type target.isSome = some priority ∧ target ≠ some d.id ∧
      allowedPhase type target.isSome phase = true ∧
      o = newOperation now d type priority revisionId target phase ∧
      d' = d.putOperation (newOperation now d type priority revisionId target phase) := by
  simp only [enqueueOperation, bind_eq_ok, orRaise_eq_ok, require_eq_ok, pure_eq_ok,
    Prod.mk.injEq, exists_const] at h
  obtain ⟨q,hq,hp,htarget,hphase,ho,hd⟩ := h
  exact ⟨hp ▸ hq,htarget,hphase,ho.symm,hd.symm⟩

/-- A first publication checkpoint of a document. -/
theorem ensurePublicationRecord_ok {r : PreparedRevision}
    (h : ensurePublicationRecord now d r = .ok d') (hempty : d.publications.rows = []) :
    r.status = .sealed ∧ ∃ points, r.expectedPointCount = some points ∧
      d' = d.putPublication (newPublication now r points) := by
  have hnone : d.publicationForRevision r.id = none := by
    simp [Document.publicationForRevision, hempty]
  simp only [ensurePublicationRecord, hnone, bind_eq_ok, orRaise_eq_ok, require_eq_ok,
    pure_eq_ok, exists_const] at h
  obtain ⟨⟨-,hsealed⟩,points,hpoints,hd⟩ := h
  exact ⟨hsealed,points,hpoints,hd.symm⟩

theorem clearFailure_eq (h : DocumentInv s now d) (hstate : failedState d.state = false)
    (hlive : deletionState d.state = false) : d.clearFailure = d := by
  have hcode : d.failureCode = none := by
    cases hc : d.failureCode with
    | none => rfl
    | some code =>
      have := h.failure.code hstate (by rw [hc]; rfl)
      rw [(h.deletion.live hlive).2.disposition] at this
      cases this
  have hmessage := h.failure.message hstate
  have hretryable := h.failure.retryable hstate
  unfold Document.clearFailure
  rw [← hcode, ← hmessage, ← hretryable]

theorem clearFailure_decisions (h : d.clearFailure = d) (l : List Decision) :
    ({d with decisions := l} : Document).clearFailure = {d with decisions := l} :=
  congrArg (fun e : Document => {e with decisions := l}) h

/-- The checkpoint of a deletion that starts now, towards the configured target. -/
theorem freshProgress_fresh {disposition : TerminalDisposition} {active : Text 255}
    {revisionId publicationId : Option Uuid}
    (hactive : ∃ definition, s.enabledCollection? d.intake.collectionKey = some definition ∧
      active = definition.qdrantCollectionName)
    (hrevision : ∀ id, revisionId = some id → ∃ r, r ∈ d.preparedRevisions ∧ r.id = id) :
    FreshProgress s d (freshProgress disposition active s.screening revisionId publicationId) where
  active := hactive
  screening := rfl
  revision := hrevision
  phase := rfl
  activeZero := rfl
  screeningZero := rfl
  purged := rfl
  tombstoned := rfl

/-- Every revision aims at the configured collection of its document. -/
theorem DocumentInv.revision_active (h : DocumentInv s now d) {r : PreparedRevision}
    (hr : r ∈ d.preparedRevisions) : ∃ definition,
      s.enabledCollection? d.intake.collectionKey = some definition ∧
      r.identity.activeQdrantCollection = definition.qdrantCollectionName := by
  obtain ⟨definition,hdef,hid⟩ := (h.revisions.valid r hr).target
  exact ⟨definition,hdef,by rw [hid]; rfl⟩

/-- A deletion that starts on a document without a checkpoint. -/
theorem beginDeletion_ok {disposition : TerminalDisposition} {active screening : Text 255}
    {revisionId publicationId : Option Uuid} {o : WorkOperation}
    (h : beginDeletion now c d disposition active screening revisionId publicationId =
      .ok (o,d')) (hp : d.deletionProgress = none) :
    d' = startDeletion now d
      (freshProgress disposition active screening revisionId publicationId) := by
  simp only [beginDeletion, hp, bind_eq_ok, require_eq_ok, exists_const] at h
  obtain ⟨-,-,-,-,h⟩ := h
  exact (enqueueOperation_ok h).2.2.2.2

/-! ### Admission -/

theorem admitted_documentInv (x : PreparedAdmission)
    (hcollection : (s.enabledCollection? x.collectionKey).isSome = true)
    (hsize : 0 < x.sizeBytes) : DocumentInv s (now + 1) (admitted now x) := by
  have hempty : (admittedDocument now x).operations.rows = [] := rfl
  have hops : OperationsInv now (admittedDocument now x).id
      (admittedDocument now x).operations.rows := OperationsInv.nil now _
  have hrows := admitted_rows now x
  exact {
    drawn := rfl
    fresh := Nat.lt_succ_self now
    intake := ⟨rfl,hsize,rfl,rfl,rfl,hcollection⟩
    operations := by
      rw [hrows]
      exact hops.newOperation (by simp [hempty]) (by simp [hempty]) rfl (by simp) rfl
    standing := ⟨_,newest_eq_some.2 ⟨_,hrows⟩,Standing.newOperation rfl⟩
    failure := FailureInv.clear rfl rfl rfl rfl
    revisions := ⟨fun r hr => absurd hr (Table.not_mem_empty r),
      fun r hr => absurd hr (Table.not_mem_empty r),
      fun r _ hr => absurd hr (Table.not_mem_empty r)⟩
    publications := {
      decided := fun x hx => absurd hx List.not_mem_nil
      singleDecision := Nat.zero_le 1
      decisionTarget := fun x hx => absurd hx List.not_mem_nil
      undecided := fun _ => rfl
      unpublished := fun _ => rfl
      single := Nat.zero_le 1
      bound := fun p hp => absurd hp List.not_mem_nil
      attempts := by
        rw [hrows, List.forall_mem_singleton]
        exact fun ht => by cases ht
      present := fun hc => by cases hc
      status := fun p hp => absurd hp List.not_mem_nil
      failure := fun p hp => absurd hp List.not_mem_nil
      proof := fun p hp => absurd hp List.not_mem_nil }
    deletion := LiveInv.deletion {
      state := rfl
      disposition := rfl
      tombstone := rfl
      replaced := rfl
      source := rfl
      attempts := by
        rw [hrows, List.forall_mem_singleton]
        exact fun ht => by cases ht } rfl }

theorem registerAdmission_change {x : PreparedAdmission} {m : MutationOutcome}
    (h : registerAdmission s now x c = .ok m) :
    CatalogChange s strands rejects now c m.catalog := by
  simp only [registerAdmission, bind_eq_ok, require_eq_ok, exists_const, Prod.exists,
    pure_eq_ok] at h
  obtain ⟨hcollection,hsize,-,o,d,henqueue,rfl⟩ := h
  obtain ⟨-,-,-,-,rfl⟩ := enqueueOperation_ok henqueue
  exact CatalogChange.arrive x (admitted_documentInv x hcollection hsize)

/-! ### Decisions -/

theorem getDocumentForUpdate_ok {id : Uuid} (h : getDocumentForUpdate c id = .ok d) :
    d ∈ c.documents ∧ d.id = id := by
  simp only [getDocumentForUpdate, orRaise_eq_ok] at h
  exact ⟨Catalog.mem_of_document? h,Catalog.id_of_document? h⟩

theorem requireCurrentReviewRevision_ok {id : Uuid} {r : PreparedRevision} {manifest : Digest}
    (h : requireCurrentReviewRevision d id = .ok (r,manifest)) :
    d.state = .reviewRequired ∧ r ∈ d.preparedRevisions ∧ r.status = .sealed ∧
      r.manifestSha256 = some manifest := by
  simp only [requireCurrentReviewRevision, bind_eq_ok, require_eq_ok, orRaise_eq_ok, pure_eq_ok,
    Prod.mk.injEq, exists_const] at h
  obtain ⟨hstate,x,hx,⟨hsealed,-⟩,m,hm,-,rfl,rfl⟩ := h
  exact ⟨hstate,Table.mem_of_lookup hx,hsealed,hm⟩

theorem verifiedReadyBinding_ok {r : PreparedRevision} {p : PublicationRecord}
    (h : verifiedReadyBinding d = .ok (r,p)) :
    r ∈ d.preparedRevisions ∧ r.identity.activeQdrantCollection = p.activeQdrantCollection ∧
      p ∈ d.publications ∧ p.preparedRevisionId = r.id := by
  simp only [verifiedReadyBinding, bind_eq_ok, require_eq_ok, orRaise_eq_ok, pure_eq_ok,
    Prod.mk.injEq, exists_const] at h
  obtain ⟨q,hq,x,hx,⟨-,hactive,-⟩,rfl,rfl⟩ := h
  exact ⟨Table.mem_of_lookup hx,hactive,List.mem_of_mem_filter (latestBy_mem hq),
    (Table.key_of_lookup hx).symm⟩

theorem validateReplacementTarget_ok {id : Uuid} {t : Document} {r : PreparedRevision}
    {p : PublicationRecord} (h : validateReplacementTarget c d id = .ok (t,r,p)) :
    id ≠ d.id ∧ t ∈ c.documents ∧ t.id = id ∧
      t.intake.collectionKey = d.intake.collectionKey ∧ t.state = .ready ∧
      verifiedReadyBinding t = .ok (r,p) := by
  simp only [validateReplacementTarget, bind_eq_ok, require_eq_ok, orRaise_eq_ok, pure_eq_ok,
    Prod.mk.injEq, Prod.exists, exists_const] at h
  obtain ⟨hne,x,hx,hcollection,hstate,-,-,r',p',hbinding,rfl,rfl,rfl⟩ := h
  exact ⟨hne,Catalog.mem_of_document? hx,Catalog.id_of_document? hx,hcollection,hstate,hbinding⟩

/-- A document with its one new decision still has what it had. -/
theorem beginReplacement_ok {t i' t' : Document} {r tr : PreparedRevision}
    {tp : PublicationRecord} {screening : Text 255} {o : WorkOperation}
    (h : beginReplacement now d r t tr tp screening = .ok (o,i',t'))
    (hempty : d.publications.rows = []) :
    r.status = .sealed ∧ ∃ points, r.expectedPointCount = some points ∧
      i' = beginPublication now d r points .replacement (some t.id) ∧
      t' = {t.clearFailure with
        deletionProgress := some (freshProgress .deleted tp.activeQdrantCollection screening
          (some tr.id) (some tp.id))
        state := .deleting, terminalDisposition := some .deleted,
        replacedByDocumentId := some d.id} := by
  simp only [beginReplacement, bind_eq_ok, require_eq_ok, exists_const, Prod.exists, pure_eq_ok,
    Prod.mk.injEq] at h
  obtain ⟨-,-,d₁,hd₁,o₁,i₁,henqueue,-,rfl,rfl⟩ := h
  obtain ⟨hsealed,points,hpoints,rfl⟩ := ensurePublicationRecord_ok hd₁ hempty
  obtain ⟨-,-,-,-,rfl⟩ := enqueueOperation_ok henqueue
  exact ⟨hsealed,points,hpoints,rfl,rfl⟩

theorem recordDecision_change (hinv : CatalogInv s strands now c) {documentId revisionId : Uuid}
    {action : DecisionAction} {targetId : Option Uuid} {idempotency : IdempotencyRecord}
    {actorId : Text 255} {m : MutationOutcome}
    (h : recordDecision now s.screening c documentId revisionId action targetId idempotency
      actorId = .ok m) : CatalogChange s strands rejects now c m.catalog := by
  simp only [recordDecision, requireReservation, require_eq_ok, bind_eq_ok, exists_const,
    Prod.exists] at h
  obtain ⟨-,d,hd,r,manifest,hreview,h⟩ := h
  obtain ⟨hmem,hid⟩ := getDocumentForUpdate_ok hd
  obtain ⟨hstate,hr,hsealed,hmanifest⟩ := requireCurrentReviewRevision_ok hreview
  have dinv := hinv.documents d hmem
  have hempty := dinv.publications.unpublished (by rw [hstate]; rfl)
  have hlive := dinv.deletion.live (by rw [hstate]; rfl)
  have hnotarget : ∀ t, t ∈ c.documents → t.replacedByDocumentId ≠ some d.id := by
    intro t ht hr
    exact dinv.not_targets (by rw [hstate]; rfl) _ (hinv.owns hmem ht hr).targets
  cases action with
  | replace =>
    simp only [bind_eq_ok, orRaise_eq_ok, Prod.exists, pure_eq_ok] at h
    obtain ⟨target,rfl,t,tr,tp,hvalid,o,i',t',hbegin,rfl⟩ := h
    obtain ⟨hne,ht,htid,hcollection,htstate,hbinding⟩ := validateReplacementTarget_ok hvalid
    obtain ⟨htr,hactive,-,-⟩ := verifiedReadyBinding_ok hbinding
    obtain ⟨-,points,hpoints,rfl,rfl⟩ := beginReplacement_ok hbegin hempty
    obtain ⟨definition,hdef,hname⟩ := (hinv.documents t ht).revision_active htr
    exact CatalogChange.replace hmem ht (fun he => hne (htid.symm.trans he.symm))
      hcollection.symm hstate htstate hr hsealed hpoints rfl hmanifest rfl
      (congrArg some htid.symm) (freshProgress_fresh ⟨definition,hdef,hactive.symm.trans hname⟩
        fun id hid => ⟨tr,htr,Option.some.inj hid⟩) rfl rfl
  | cancel =>
    simp only [bind_eq_ok, require_eq_ok, exists_const, Prod.exists, pure_eq_ok] at h
    obtain ⟨rfl,o,d',hbegin,rfl⟩ := h
    obtain rfl := beginDeletion_ok hbegin hlive.1
    refine CatalogChange.one hmem (Change.cancel hstate hr hsealed rfl hmanifest ⟨rfl,rfl⟩
      (freshProgress_fresh (dinv.revision_active hr) fun id hid => ⟨r,hr,Option.some.inj hid⟩)
      rfl rfl) rfl ?_ ?_ (fun t ht htr => absurd htr (hnotarget t ht))
    · intro x hx ha
      rcases List.mem_append.1 hx with hx | hx
      · exact hx
      · cases List.mem_singleton.1 hx
        cases ha
    · rw [hlive.2.replaced]
      exact fun hc => by cases hc
  | keep =>
    simp only [bind_eq_ok, require_eq_ok, exists_const, Prod.exists, pure_eq_ok] at h
    obtain ⟨rfl,d₁,hd₁,o,d',henqueue,rfl⟩ := h
    obtain ⟨-,points,hpoints,rfl⟩ := ensurePublicationRecord_ok hd₁ hempty
    obtain ⟨-,-,-,-,rfl⟩ := enqueueOperation_ok henqueue
    -- the failure of a reviewed document is clear already
    have hclear := clearFailure_eq dinv (by rw [hstate]; rfl) (by rw [hstate]; rfl)
    have hbegin : Change s rejects now d _ := Change.decide hstate hr hsealed hpoints rfl hmanifest
      (x := ⟨uuid4 now 0,r.id,manifest,.keep,none,actorId,now⟩) (Or.inl ⟨rfl,rfl,rfl⟩) rfl
      (by simp) rfl
    rw [beginPublication, clearFailure_decisions hclear] at hbegin
    refine CatalogChange.one hmem hbegin rfl ?_ ?_
      (fun t ht htr => absurd htr (hnotarget t ht))
    · intro x hx ha
      rcases List.mem_append.1 hx with hx | hx
      · exact hx
      · cases List.mem_singleton.1 hx
        cases ha
    · rw [hlive.2.replaced]
      exact fun hc => by cases hc

/-! ### Retries -/

/-- The document whose operation a retry resumes is not a replaced one, or has not failed to
be deleted. -/
theorem retryOwner_ok (h : retryOwner c d = .ok d') (hd : d ∈ c.documents) :
    d' ∈ c.documents ∧ (d'.state = .deleteFailed → d'.replacedByDocumentId = none) := by
  unfold retryOwner at h
  split at h
  · simp only [bind_eq_ok, require_eq_ok, exists_const, pure_eq_ok] at h
    obtain ⟨x,hx,⟨hstate,-,-⟩,rfl⟩ := h
    refine ⟨(getDocumentForUpdate_ok hx).1,fun hf => ?_⟩
    rw [hstate] at hf
    cases hf
  · rename_i hne
    rw [pure_eq_ok] at h
    subst h
    refine ⟨hd,fun hf => ?_⟩
    cases hr : d.replacedByDocumentId with
    | none => rfl
    | some owner => exact absurd hr (hne owner hf)

theorem resetPublication_ok {revisionId : Option Uuid}
    (h : resetPublication d revisionId = .ok d') : ∃ p, p ∈ d.publications ∧
      d' = d.putPublication {p with status := .pending, failureCode := none} := by
  simp only [resetPublication, bind_eq_ok, require_eq_ok, orRaise_eq_ok, exists_const,
    pure_eq_ok] at h
  obtain ⟨id,-,p,hp,r,-,-,rfl⟩ := h
  exact ⟨p,List.mem_of_find?_eq_some hp,rfl⟩

theorem resumeReplacementTarget_ok {id : Uuid} {t' : Document}
    (h : resumeReplacementTarget c id = .ok t') : ∃ t, c.document? id = some t ∧
      ((t.state = .deleteFailed ∧ ∃ p, t.deletionProgress = some p ∧ t' = {t.clearFailure with
          state := .deleting, deletionProgress := some {p with failureCode := none}}) ∨
        (t.state ≠ .deleteFailed ∧ t' = t)) := by
  simp only [resumeReplacementTarget, bind_eq_ok, orRaise_eq_ok, ite_eq_ok, pure_eq_ok] at h
  obtain ⟨t,ht,p,hp,⟨hstate,rfl⟩ | ⟨hstate,rfl⟩⟩ := h
  · exact ⟨t,ht,Or.inl ⟨hstate,p,hp,rfl⟩⟩
  · exact ⟨t,ht,Or.inr ⟨hstate,rfl⟩⟩

theorem priorityOfValue?_ok {n : ℕ} {priority : OperationPriority}
    (h : priorityOfValue? n = some priority) : priority.value = n := by
  unfold priorityOfValue? at h
  split at h <;> first | cases h; rfl | cases h

/-- The failed operation of a failed document is its newest one. -/
theorem DocumentInv.latestOperation_failed (h : DocumentInv s now d) {type : OperationType}
    {state : DocumentState} (htransition : retryTransition d.state = some (type,state))
    (howner : d.state = .deleteFailed → d.replacedByDocumentId = none) {o : WorkOperation}
    (ho : latestOperation d type = some o) : newest d = some o := by
  obtain ⟨x,hx,hstanding⟩ := h.standing
  have htype : x.operationType = type := by
    cases hs : d.state <;> rw [hs] at htransition <;> cases htransition
    · exact hstanding.type_eq (by rw [hs])
    · exact hstanding.type_eq (by rw [hs])
    · exact hstanding.type_eq (by rw [hs, howner hs])
  have := h.operations.latestOperation_newest hx
  rw [htype, ho] at this
  rw [hx, this]

theorem requestRetry_change (hinv : CatalogInv s strands now c) {documentId : Uuid}
    {idempotency : IdempotencyRecord} {actorId : Text 255} {m : MutationOutcome}
    (h : requestRetry now c documentId idempotency actorId = .ok m) :
    CatalogChange s strands rejects now c m.catalog := by
  simp only [requestRetry, requireReservation, require_eq_ok, bind_eq_ok, orRaise_eq_ok,
    exists_const, Prod.exists] at h
  obtain ⟨-,requested,hrequested,-,d,howner,type,state,htransition,o,hlatest,-,priority,hpriority,
    -,h⟩ := h
  obtain ⟨hd,hfree⟩ := retryOwner_ok howner (getDocumentForUpdate_ok hrequested).1
  have dinv := hinv.documents d hd
  have ho := dinv.latestOperation_failed htransition hfree hlatest
  have hvalue := priorityOfValue?_ok hpriority
  have hreplaced : d.state ≠ .deleteFailed → deletionState d.state = false →
      d.replacedByDocumentId = none := fun _ hlive => (dinv.deletion.live hlive).2.replaced
  cases hs : d.state <;> rw [hs] at htransition <;> cases htransition
  · -- a failed preflight has no link yet
    simp only [bind_eq_ok, require_eq_ok, exists_const, Prod.exists, pure_eq_ok] at h
    obtain ⟨-,x,d',henqueue,rfl⟩ := h
    obtain ⟨-,-,-,-,rfl⟩ := enqueueOperation_ok henqueue
    have htype := (dinv.standing_newest ho).type_eq (x := (.preflight,.failed)) (by rw [hs]; rfl)
    have hchange : Change s rejects now d _ := Change.retryPreflight hs ho hvalue
    rw [resume, htype] at hchange
    refine CatalogChange.one hd hchange rfl (fun x hx _ => hx) ?_ ?_
    · rw [hreplaced (by rw [hs]; decide) (by rw [hs]; rfl)]
      exact fun hc => by cases hc
    · intro t ht htr
      exact absurd (hinv.owns hd ht htr).targets (dinv.not_targets (by rw [hs]; rfl) _)
  · simp only [bind_eq_ok] at h
    obtain ⟨d₁,hreset,h⟩ := h
    obtain ⟨p,hp,rfl⟩ := resetPublication_ok hreset
    have htype := (dinv.standing_newest ho).type_eq (x := (.publish,.failed)) (by rw [hs]; rfl)
    have hchange : Change s rejects now d _ := Change.retryPublish hs ho hvalue hp
    rw [resume, htype] at hchange
    have hfree' := hreplaced (by rw [hs]; decide) (by rw [hs]; rfl)
    cases htarget : o.replacementTargetDocumentId with
    | none =>
      simp only [htarget, bind_eq_ok, Prod.exists, pure_eq_ok] at h
      obtain ⟨x,d',henqueue,rfl⟩ := h
      obtain ⟨-,-,-,-,rfl⟩ := enqueueOperation_ok henqueue
      rw [htarget] at hchange
      refine CatalogChange.one hd hchange rfl (fun x hx _ => hx) ?_ ?_
      · rw [hfree']
        exact fun hc => by cases hc
      · intro t ht htr
        have := dinv.target_eq (hinv.owns hd ht htr).targets (mem_of_newest ho) htype
        rw [htarget] at this
        cases this
    | some targetId =>
      simp only [htarget, bind_eq_ok, Prod.exists, pure_eq_ok] at h
      obtain ⟨t',hresume,x,d',henqueue,rfl⟩ := h
      obtain ⟨-,-,-,-,rfl⟩ := enqueueOperation_ok henqueue
      rw [htarget] at hchange
      obtain ⟨t,ht,hcases⟩ := resumeReplacementTarget_ok hresume
      obtain ⟨t₁,ht₁,htid,hown⟩ := hinv.link.replaced d hd targetId
        ⟨o,mem_of_newest ho,htarget⟩
      cases Table.eq_of_key_eq ht₁ (Catalog.mem_of_document? ht)
        (htid.trans (Catalog.id_of_document? ht).symm)
      rcases hcases with ⟨htstate,q,hq,rfl⟩ | ⟨htstate,rfl⟩
      · exact CatalogChange.pair hd ht₁ hown hchange
          (Change.resumeYielded htstate (by rw [hown]; rfl) hq) rfl rfl rfl rfl (by rw [hs]; rfl)
          ⟨fun _ => rfl,fun hf => by cases hf⟩
      · exact CatalogChange.pair hd ht₁ hown hchange (Change.index _) rfl rfl rfl rfl
          (by rw [hs]; rfl) ⟨fun _ => rfl,fun hf => absurd hf htstate⟩
  · simp only [bind_eq_ok, orRaise_eq_ok, require_eq_ok, exists_const, Prod.exists,
      pure_eq_ok] at h
    obtain ⟨p,hp,⟨-,htarget⟩,x,d',henqueue,rfl⟩ := h
    obtain ⟨-,-,-,-,rfl⟩ := enqueueOperation_ok henqueue
    have htype := (dinv.standing_newest ho).type_eq (x := (.delete,.failed))
      (by rw [hs, hfree hs]; rfl)
    have hchange : Change s rejects now d _ := Change.retryDelete hs (hfree hs) ho hvalue hp
    rw [resume, htype] at hchange
    refine CatalogChange.one hd hchange rfl (fun x hx _ => hx) ?_ ?_
    · rw [hfree hs]
      exact fun hc => by cases hc
    · exact fun t _ _ hf => hf.of_deletion (by rw [hs]; rfl) rfl

/-! ### Deletions -/

theorem latestSealedRevision_mem {r : PreparedRevision} (h : latestSealedRevision d = some r) :
    r ∈ d.preparedRevisions := List.mem_of_mem_filter (latestBy_mem h)

theorem latestRevision_mem {r : PreparedRevision} (h : latestRevision d = some r) :
    r ∈ d.preparedRevisions := latestBy_mem h

/-- The persisted target of a deletion is the configured collection of the document. -/
theorem DocumentInv.deletionTarget (h : DocumentInv s now d) {definition : CollectionDefinition}
    (hdef : s.enabledCollection? d.intake.collectionKey = some definition) {target : Text 255}
    {revision : Option PreparedRevision} {publication : Option PublicationRecord}
    (ht : deletionTargetForState d definition.qdrantCollectionName =
      .ok (target,revision,publication)) :
    target = definition.qdrantCollectionName ∧ ∀ r ∈ revision, r ∈ d.preparedRevisions := by
  have hactive : ∀ r, r ∈ d.preparedRevisions →
      r.identity.activeQdrantCollection = definition.qdrantCollectionName := by
    intro r hr
    obtain ⟨x,hx,hname⟩ := h.revision_active hr
    rw [hdef] at hx
    cases hx
    exact hname
  have hone : ∀ r, r ∈ d.preparedRevisions → ∀ x ∈ some r, x ∈ d.preparedRevisions := by
    intro r hr x hx
    cases hx
    exact hr
  unfold deletionTargetForState at ht
  split at ht
  · simp only [bind_eq_ok, Prod.exists, pure_eq_ok, Prod.mk.injEq] at ht
    obtain ⟨r,p,hbinding,rfl,rfl,-⟩ := ht
    obtain ⟨hr,hname,-,-⟩ := verifiedReadyBinding_ok hbinding
    exact ⟨hname.symm.trans (hactive r hr),hone r hr⟩
  · simp only [bind_eq_ok, orRaise_eq_ok] at ht
    obtain ⟨r,hlatest,ht⟩ := ht
    have hr := latestSealedRevision_mem hlatest
    split at ht
    · simp only [pure_eq_ok, Prod.mk.injEq] at ht
      obtain ⟨rfl,rfl,-⟩ := ht
      exact ⟨hactive r hr,hone r hr⟩
    · simp only [bind_eq_ok, require_eq_ok, exists_const, pure_eq_ok, Prod.mk.injEq] at ht
      obtain ⟨-,rfl,rfl,-⟩ := ht
      exact ⟨hactive r hr,hone r hr⟩
  · simp only [bind_eq_ok, orRaise_eq_ok, require_eq_ok, exists_const, pure_eq_ok,
      Prod.mk.injEq] at ht
    obtain ⟨p,-,r,hlookup,⟨-,-,hname,-⟩,rfl,rfl,-⟩ := ht
    have hr : r ∈ d.preparedRevisions := Table.mem_of_lookup hlookup
    exact ⟨hname.trans (hactive r hr),hone r hr⟩
  · split at ht
    · rename_i r hlatest
      simp only [pure_eq_ok, Prod.mk.injEq] at ht
      obtain ⟨rfl,rfl,-⟩ := ht
      have hr := latestRevision_mem hlatest
      exact ⟨hactive r hr,hone r hr⟩
    · simp only [pure_eq_ok, Prod.mk.injEq] at ht
      obtain ⟨rfl,rfl,-⟩ := ht
      exact ⟨rfl,fun x hx => by cases hx⟩

/-- Deleting the document `id` strands the document that it has not finished to replace. -/
def Stranding (c : Catalog) (id : Uuid) : Prop :=
  ∃ i t, i ∈ c.documents ∧ i.id = id ∧ i.state = .publishFailed ∧ t ∈ c.documents ∧
    t.replacedByDocumentId = some i.id ∧ t.state ≠ .deleted

/-- The delete of a document at rest. -/
theorem delete_change (hinv : CatalogInv s strands now c) (hd : d ∈ c.documents)
    (hstate : d.state = .ready ∨ d.state = .preflightFailed ∨ d.state = .reviewRequired ∨
      d.state = .publishFailed) {p : DeletionProgress} (hp : FreshProgress s d p)
    (hdisposition : p.terminalDisposition = .deleted) (hstrands : Stranding c d.id → strands) :
    CatalogChange s strands rejects now c (c.put (startDeletion now d p)) := by
  have dinv := hinv.documents d hd
  have hlive : deletionState d.state = false := by
    rcases hstate with he | he | he | he <;> rw [he] <;> rfl
  have hchange : Change s rejects now d (startDeletion now d p) := Change.delete hstate hp hdisposition
  refine CatalogChange.one hd hchange rfl (fun x hx _ => hx) ?_ ?_
  · rw [(dinv.deletion.live hlive).2.replaced]
    exact fun hc => by cases hc
  · intro t ht htr hfits
    refine ⟨fun hf => ?_,fun hf => ?_⟩
    · have := hfits.1 hf
      rcases hstate with he | he | he | he <;> rw [he] at this <;> cases this
    · rcases hfits.2 hf with ⟨he,-⟩ | ⟨-,he⟩
      · exact Or.inr ⟨hstrands ⟨d,t,hd,rfl,he,ht,htr,by rw [hf]; decide⟩,rfl⟩
      · rw [hlive] at he
        cases he

/-- The states from which a delete request starts a deletion. -/
def atRest (s : DocumentState) : Prop :=
  s = .ready ∨ s = .preflightFailed ∨ s = .reviewRequired ∨ s = .publishFailed

/-- A delete request starts a deletion or answers with one that exists. -/
theorem requestDeletion_ok {active screening : Text 255} {documentId : Uuid}
    {idempotency : IdempotencyRecord} {actorId : Text 255} {m : MutationOutcome}
    (h : requestDeletion now active screening c documentId idempotency actorId = .ok m) :
    ∃ d, d ∈ c.documents ∧ d.id = documentId ∧ (m.catalog = c ∨
      (atRest d.state ∧ ∃ target revision publication d',
        deletionTargetForState d active = .ok (target,revision,publication) ∧
        beginDeletion now c d .deleted target screening (revision.map (·.id))
          (publication.map (·.id)) = .ok (m.operation,d') ∧ m.catalog = c.put d')) := by
  simp only [requestDeletion, requireReservation, require_eq_ok, bind_eq_ok, exists_const] at h
  obtain ⟨-,d,hget,h⟩ := h
  obtain ⟨hd,hid⟩ := getDocumentForUpdate_ok hget
  refine ⟨d,hd,hid,?_⟩
  split at h
  · simp only [bind_eq_ok, require_eq_ok, orRaise_eq_ok, exists_const, pure_eq_ok] at h
    obtain ⟨-,o,-,rfl⟩ := h
    exact Or.inl rfl
  · simp only [bind_eq_ok, require_eq_ok, orRaise_eq_ok, exists_const, pure_eq_ok] at h
    obtain ⟨-,o,-,rfl⟩ := h
    exact Or.inl rfl
  · simp only [bind_eq_ok, orRaise_eq_ok, pure_eq_ok] at h
    obtain ⟨o,-,rfl⟩ := h
    exact Or.inl rfl
  all_goals first
    | cases h
    | rename_i hs
      simp only [bind_eq_ok, Prod.exists, pure_eq_ok] at h
      obtain ⟨target,revision,publication,htarget,o,d',hbegin,rfl⟩ := h
      exact Or.inr ⟨by simp [atRest, hs],target,revision,publication,d',htarget,hbegin,rfl⟩

theorem deleteDocument_change (hinv : CatalogInv s strands now c) {documentId : Uuid}
    {actorId : Text 255} {m : MutationOutcome}
    (h : deleteDocument s now documentId actorId c = .ok m)
    (hstrands : Stranding c documentId → strands) :
    CatalogChange s strands rejects now c m.catalog := by
  simp only [deleteDocument, bind_eq_ok, orRaise_eq_ok] at h
  obtain ⟨d,hd₀,definition,hdef,h⟩ := h
  obtain ⟨d₁,hd,hid,hsame | ⟨hstate,target,revision,publication,d',htarget,hbegin,hput⟩⟩ :=
    requestDeletion_ok h
  · rw [hsame]
    exact CatalogChange.same
  · cases Table.eq_of_key_eq hd (Catalog.mem_of_document? hd₀)
      (hid.trans (Catalog.id_of_document? hd₀).symm)
    obtain ⟨hname,hrevision⟩ := (hinv.documents d hd).deletionTarget hdef htarget
    have hlive : deletionState d.state = false := by
      rcases hstate with he | he | he | he <;> rw [he] <;> rfl
    obtain rfl := beginDeletion_ok hbegin ((hinv.documents d hd).deletion.live hlive).1
    rw [hput]
    refine delete_change hinv hd hstate (freshProgress_fresh ⟨definition,hdef,hname⟩ ?_) rfl
      (fun hs => hstrands (hid ▸ hs))
    intro id hrid
    obtain ⟨r,hr,hrid⟩ := Option.map_eq_some_iff.1 hrid
    exact ⟨r,hrevision r hr,hrid⟩

end Lifecycle
end PdfBridge
