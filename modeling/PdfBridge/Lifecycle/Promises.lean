import PdfBridge.Lifecycle.Contents

/-! What the catalog says about points, a `READY` state and the zero proofs of a deletion, and
which transactions can say more than before. -/
namespace PdfBridge
namespace Lifecycle
open Worker Api Intake Preparation

variable {s : Settings} {enc : Encoding} {strands : Prop} {rejects : FailureCode → Prop}
  {now : Time} {worker : Uuid} {ref : OperationRef} {x : ClaimedOperation} {K : Knowledge}
  {c c' c₁ : Catalog} {d d' e t : Document} {o o' : WorkOperation}

/-- When a deletion proved that a target holds no point of the document. -/
def zeroVerifiedAt (p : DeletionProgress) : IndexTarget → Option Time
  | .active => p.activeZeroVerifiedAt
  | .screening => p.screeningZeroVerifiedAt

/-- The catalog records that a target holds no point of the document. -/
def Proved (d : Document) (target : IndexTarget) : Prop :=
  ∃ p, d.deletionProgress = some p ∧ (zeroVerifiedAt p target).isSome = true

/-- What a transaction may do: the documents that it may publish, the zeros that it may prove,
the documents whose state it may change, and those that it may write at all. -/
structure Allowance where
  publishes : Uuid → Prop
  proves : Uuid → IndexTarget → Prop
  moves : Uuid → Prop
  touches : Document → Prop

variable {al : Allowance}

/-- A document changes within an allowance. -/
structure Within (al : Allowance) (d d' : Document) : Prop where
  id : d'.id = d.id
  state : d'.state = d.state ∨ al.moves d.id
  ready : d'.state = .ready → d.state = .ready ∨ al.publishes d.id
  zeros : ∀ target, Proved d' target → Proved d target ∨ al.proves d.id target

/-- A transaction stays within an allowance; a new document promises nothing. -/
structure Observes (al : Allowance) (c c' : Catalog) : Prop where
  documents : ∀ d', d' ∈ c'.documents →
    ((∀ d, d ∈ c.documents → d.id ≠ d'.id) ∧ d'.state ≠ .ready ∧ ∀ target, ¬ Proved d' target) ∨
    ∃ d, d ∈ c.documents ∧ Within al d d'
  frame : ∀ d, d ∈ c.documents → ¬ al.touches d → d ∈ c'.documents

/-- A document in the state and with the checkpoint of another one. -/
theorem Within.same (hid : d'.id = d.id) (hstate : d'.state = d.state)
    (hprogress : d'.deletionProgress = d.deletionProgress) : Within al d d' where
  id := hid
  state := Or.inl hstate
  ready := fun h => Or.inl (hstate.symm.trans h)
  zeros := fun _ ⟨p,hp,hz⟩ => Or.inl ⟨p,hprogress.symm.trans hp,hz⟩

theorem Within.refl (al : Allowance) (d : Document) : Within al d d := Within.same rfl rfl rfl

/-- A document that moves to a state other than `READY`. -/
theorem Within.moved (hid : d'.id = d.id) (hm : al.moves d.id) (hready : d'.state ≠ .ready)
    (hzeros : ∀ target, Proved d' target → Proved d target) : Within al d d' where
  id := hid
  state := Or.inr hm
  ready := fun h => absurd h hready
  zeros := fun target hp => Or.inl (hzeros target hp)

/-- Only the checkpoint changes. -/
theorem Within.progress {p p' : DeletionProgress} (hid : d'.id = d.id)
    (hstate : d'.state = d.state) (hp : d.deletionProgress = some p)
    (hp' : d'.deletionProgress = some p')
    (hzeros : ∀ target, (zeroVerifiedAt p' target).isSome = true →
      (zeroVerifiedAt p target).isSome = true ∨ al.proves d.id target) : Within al d d' where
  id := hid
  state := Or.inl hstate
  ready := fun h => Or.inl (hstate.symm.trans h)
  zeros := by
    rintro target ⟨q,hq,hz⟩
    cases hp'.symm.trans hq
    exact (hzeros target hz).imp_left fun h => ⟨p,hp,h⟩

theorem Observes.refl (al : Allowance) (c : Catalog) : Observes al c c :=
  ⟨fun d hd => Or.inr ⟨d,hd,Within.refl al d⟩,fun _ hd _ => hd⟩

theorem Observes.put (h : Observes al c c₁) (hd : d ∈ c.documents) (hw : Within al d d')
    (ht : al.touches d) : Observes al c (c₁.put d') := by
  constructor
  · intro e he
    rcases mem_put.1 he with rfl | ⟨he,-⟩
    · exact Or.inr ⟨d,hd,hw⟩
    · exact h.documents e he
  · intro e he hn
    refine mem_put.2 (Or.inr ⟨h.frame e he hn,fun hid => hn ?_⟩)
    cases Table.eq_of_key_eq he hd (hid.trans hw.id)
    exact ht

/-- A row that is written as it was. -/
theorem Observes.put_self (h : Observes al c c₁) (hd : d ∈ c.documents) :
    Observes al c (c₁.put d) := by
  constructor
  · intro e he
    rcases mem_put.1 he with rfl | ⟨he,-⟩
    · exact Or.inr ⟨e,hd,Within.refl al e⟩
    · exact h.documents e he
  · intro e he hn
    by_cases hid : e.id = d.id
    · exact mem_put.2 (Or.inl (Table.eq_of_key_eq he hd hid))
    · exact mem_put.2 (Or.inr ⟨h.frame e he hn,hid⟩)

theorem Observes.mapOperations {f : WorkOperation → WorkOperation} (hf : ∀ o, (f o).id = o.id)
    (ht : ∀ d, al.touches d) : Observes al c (Catalog.mapOperations c f hf) := by
  refine ⟨fun e he => ?_,fun d _ hn => absurd (ht d) hn⟩
  obtain ⟨d,hd,rfl⟩ := mem_mapOperations.1 he
  exact Or.inr ⟨d,hd,Within.same rfl rfl rfl⟩

/-! ### Operator mutations -/

/-- A mutation moves documents that nobody works on. -/
def mutationAllowance : Allowance where
  publishes := fun _ => False
  proves := fun _ _ => False
  moves := fun _ => True
  touches := fun d => busy d.state = false

theorem enqueueOperation_fields {type : OperationType} {priority : OperationPriority}
    {revisionId target : Option Uuid} {phase : OperationPhase}
    (h : enqueueOperation now d type priority revisionId target phase = .ok (o,d')) :
    d'.id = d.id ∧ d'.state = d.state ∧ d'.deletionProgress = d.deletionProgress := by
  obtain ⟨-,-,-,-,rfl⟩ := enqueueOperation_ok h
  exact ⟨rfl,rfl,rfl⟩

theorem ensurePublicationRecord_fields {r : PreparedRevision}
    (h : ensurePublicationRecord now d r = .ok d') :
    d'.id = d.id ∧ d'.state = d.state ∧ d'.deletionProgress = d.deletionProgress := by
  simp only [ensurePublicationRecord, bind_eq_ok, orRaise_eq_ok, require_eq_ok,
    exists_const] at h
  obtain ⟨-,points,-,h⟩ := h
  split at h
  · cases h
    exact ⟨rfl,rfl,rfl⟩
  · simp only [bind_eq_ok, require_eq_ok, exists_const, pure_eq_ok] at h
    obtain ⟨-,-,rfl⟩ := h
    exact ⟨rfl,rfl,rfl⟩

theorem not_proved_freshProgress {disposition : TerminalDisposition} {active screening : Text 255}
    {revisionId publicationId : Option Uuid} {target : IndexTarget}
    (hp : d.deletionProgress =
      some (freshProgress disposition active screening revisionId publicationId)) :
    ¬ Proved d target := by
  rintro ⟨p,hp',hz⟩
  cases hp.symm.trans hp'
  cases target <;> cases hz

/-- A new deletion has proved nothing. -/
theorem within_startDeletion {disposition : TerminalDisposition} {active screening : Text 255}
    {revisionId publicationId : Option Uuid} (hm : al.moves d.id) (hid : e.id = d.id) :
    Within al d (startDeletion now e
      (freshProgress disposition active screening revisionId publicationId)) :=
  Within.moved hid hm (by rintro ⟨⟩) fun _ hz => absurd hz (not_proved_freshProgress rfl)

theorem registerAdmission_observes {y : PreparedAdmission} {m : MutationOutcome}
    (hinv : CatalogInv s strands now c) (h : registerAdmission s now y c = .ok m) :
    Observes mutationAllowance c m.catalog := by
  simp only [registerAdmission, bind_eq_ok, require_eq_ok, exists_const, Prod.exists,
    pure_eq_ok] at h
  obtain ⟨-,-,-,o,d,henqueue,rfl⟩ := h
  obtain ⟨hid,hstate,hprogress⟩ := enqueueOperation_fields henqueue
  have fresh : ∀ e, e ∈ c.documents → e.id ≠ d.id := by
    intro e he heq
    have hdrawn := congrArg Uuid.drawnAt
      ((hinv.documents e he).drawn.symm.trans (heq.trans hid))
    have hfresh := (hinv.documents e he).fresh
    rw [show e.createdAt = now from hdrawn] at hfresh
    exact absurd hfresh (lt_irrefl _)
  constructor
  · intro e he
    rcases mem_put.1 he with rfl | ⟨he,-⟩
    · refine Or.inl ⟨fresh,by rw [hstate]; rintro ⟨⟩,?_⟩
      rintro target ⟨p,hp,-⟩
      cases hprogress.symm.trans hp
    · exact Or.inr ⟨e,he,Within.refl _ e⟩
  · intro e he _
    exact mem_put.2 (Or.inr ⟨he,fresh e he⟩)

theorem recordDecision_observes (hinv : CatalogInv s strands now c) {documentId revisionId : Uuid}
    {screening : Text 255} {action : DecisionAction} {targetId : Option Uuid}
    {idempotency : IdempotencyRecord} {actorId : Text 255} {m : MutationOutcome}
    (h : recordDecision now screening c documentId revisionId action targetId idempotency
      actorId = .ok m) : Observes mutationAllowance c m.catalog := by
  simp only [recordDecision, requireReservation, require_eq_ok, bind_eq_ok, exists_const,
    Prod.exists] at h
  obtain ⟨-,d,hd,r,manifest,hreview,h⟩ := h
  obtain ⟨hmem,-⟩ := getDocumentForUpdate_ok hd
  obtain ⟨hstate,-,-,-⟩ := requireCurrentReviewRevision_ok hreview
  have dinv := hinv.documents d hmem
  have hempty := dinv.publications.unpublished (by rw [hstate]; rfl)
  have hlive := dinv.deletion.live (by rw [hstate]; rfl)
  have hidle : busy d.state = false := by rw [hstate]; rfl
  -- an approved document is publishing, without a checkpoint
  have approved : ∀ {d' : Document}, d'.id = d.id → d'.state = .publishing →
      d'.deletionProgress = d.deletionProgress → Within mutationAllowance d d' := by
    intro d' hid hs hp
    refine Within.moved hid trivial (by rw [hs]; rintro ⟨⟩) fun target hz => ?_
    obtain ⟨p,hq,-⟩ := hz
    rw [hp, hlive.1] at hq
    cases hq
  cases action with
  | replace =>
    simp only [bind_eq_ok, orRaise_eq_ok, Prod.exists, pure_eq_ok] at h
    obtain ⟨target,-,t,tr,tp,hvalid,o,i',t',hbegin,rfl⟩ := h
    obtain ⟨-,ht,-,-,htstate,-⟩ := validateReplacementTarget_ok hvalid
    obtain ⟨-,points,-,rfl,rfl⟩ := beginReplacement_ok hbegin hempty
    refine ((Observes.refl _ c).put ht ?_ (show busy t.state = false by rw [htstate]; rfl)).put
      hmem (approved rfl rfl rfl) hidle
    exact Within.moved rfl trivial (by rintro ⟨⟩) fun _ hz =>
      absurd hz (not_proved_freshProgress rfl)
  | cancel =>
    simp only [bind_eq_ok, require_eq_ok, exists_const, Prod.exists, pure_eq_ok] at h
    obtain ⟨-,o,d',hbegin,rfl⟩ := h
    obtain rfl := beginDeletion_ok hbegin hlive.1
    exact (Observes.refl _ c).put hmem (within_startDeletion trivial rfl) hidle
  | keep =>
    simp only [bind_eq_ok, require_eq_ok, exists_const, Prod.exists, pure_eq_ok] at h
    obtain ⟨-,d₁,hensure,o,d',henqueue,rfl⟩ := h
    obtain ⟨hid₁,-,hp₁⟩ := ensurePublicationRecord_fields hensure
    obtain ⟨hid',hs',hp'⟩ := enqueueOperation_fields henqueue
    exact (Observes.refl _ c).put hmem
      (approved (hid'.trans hid₁) hs' (hp'.trans hp₁)) hidle

theorem requestRetry_observes {documentId : Uuid} {idempotency : IdempotencyRecord}
    {actorId : Text 255} {m : MutationOutcome}
    (h : requestRetry now c documentId idempotency actorId = .ok m) :
    Observes mutationAllowance c m.catalog := by
  simp only [requestRetry, requireReservation, require_eq_ok, bind_eq_ok, orRaise_eq_ok,
    exists_const, Prod.exists] at h
  obtain ⟨-,requested,hrequested,-,d,howner,type,state,htransition,o,-,-,priority,-,-,h⟩ := h
  obtain ⟨hd,-⟩ := retryOwner_ok howner (getDocumentForUpdate_ok hrequested).1
  have hidle : busy d.state = false ∧ state ≠ .ready := by
    cases hs : d.state <;> rw [hs] at htransition <;> cases htransition <;>
      exact ⟨rfl,by rintro ⟨⟩⟩
  -- the resumed document is in the state of its work class, with the zeros that it had
  have resumed : ∀ {e d' : Document} {o' : WorkOperation} {type : OperationType}
      {priority : OperationPriority} {revisionId target : Option Uuid} {phase : OperationPhase},
      enqueueOperation now e type priority revisionId target phase = .ok (o',d') →
      e.id = d.id → e.state = state → (∀ target, Proved e target → Proved d target) →
      Within mutationAllowance d d' := by
    intro e d' o' type priority revisionId target phase henqueue hid hs hzeros
    obtain ⟨hid',hs',hp'⟩ := enqueueOperation_fields henqueue
    refine Within.moved (hid'.trans hid) trivial (by rw [hs', hs]; exact hidle.2)
      fun target hz => hzeros target ?_
    obtain ⟨p,hp,hz⟩ := hz
    exact ⟨p,hp'.symm.trans hp,hz⟩
  cases type with
  | preflight =>
    simp only [bind_eq_ok, require_eq_ok, exists_const, Prod.exists, pure_eq_ok] at h
    obtain ⟨-,y,d',henqueue,rfl⟩ := h
    exact (Observes.refl _ c).put hd (resumed henqueue rfl rfl fun _ hz => hz) hidle.1
  | publish =>
    simp only [bind_eq_ok] at h
    obtain ⟨d₁,hreset,h⟩ := h
    obtain ⟨p,-,rfl⟩ := resetPublication_ok hreset
    split at h
    · simp only [bind_eq_ok, Prod.exists, pure_eq_ok] at h
      obtain ⟨y,d',henqueue,rfl⟩ := h
      exact (Observes.refl _ c).put hd (resumed henqueue rfl rfl fun _ hz => hz) hidle.1
    · simp only [bind_eq_ok, Prod.exists, pure_eq_ok] at h
      obtain ⟨t',hresume,y,d',henqueue,rfl⟩ := h
      have hd' := resumed henqueue rfl rfl fun _ hz => hz
      obtain ⟨t,ht,⟨hstate,q,hq,rfl⟩ | ⟨-,rfl⟩⟩ := resumeReplacementTarget_ok hresume
      · refine ((Observes.refl _ c).put (Catalog.mem_of_document? ht) ?_
          (show busy t.state = false by rw [hstate]; rfl)).put hd hd' hidle.1
        refine Within.moved rfl trivial (by rintro ⟨⟩) fun target hz => ?_
        obtain ⟨p₁,hp₁,hz⟩ := hz
        cases hp₁
        exact ⟨q,hq,by cases target <;> exact hz⟩
      · exact ((Observes.refl _ c).put_self (Catalog.mem_of_document? ht)).put hd hd' hidle.1
  | delete =>
    simp only [bind_eq_ok, orRaise_eq_ok, require_eq_ok, exists_const, Prod.exists,
      pure_eq_ok] at h
    obtain ⟨p,hp,-,y,d',henqueue,rfl⟩ := h
    refine (Observes.refl _ c).put hd (resumed henqueue rfl rfl fun target hz => ?_) hidle.1
    obtain ⟨p₁,hp₁,hz⟩ := hz
    cases hp₁
    exact ⟨p,hp,by cases target <;> exact hz⟩

theorem deleteDocument_observes (hinv : CatalogInv s strands now c) {documentId : Uuid}
    {actorId : Text 255} {m : MutationOutcome}
    (h : deleteDocument s now documentId actorId c = .ok m) :
    Observes mutationAllowance c m.catalog := by
  simp only [deleteDocument, bind_eq_ok, orRaise_eq_ok] at h
  obtain ⟨d,-,definition,-,h⟩ := h
  obtain ⟨d₁,hd,-,hsame | ⟨hrest,target,revision,publication,d',-,hbegin,hput⟩⟩ :=
    requestDeletion_ok h
  · rw [hsame]
    exact Observes.refl _ c
  · have hlive : deletionState d₁.state = false ∧ busy d₁.state = false := by
      rcases hrest with hs | hs | hs | hs <;> rw [hs] <;> exact ⟨rfl,rfl⟩
    obtain rfl := beginDeletion_ok hbegin ((hinv.documents d₁ hd).deletion.live hlive.1).1
    rw [hput]
    exact (Observes.refl _ c).put hd (within_startDeletion trivial rfl) hlive.2

/-! ### Transactions of an execution -/

/-- A request of a thread writes the documents that its claim locks. Only the end of a publication
makes a document `READY`, and zeros are proved one by one. -/
def requestAllowance (x : ClaimedOperation) (r : CatalogRequest) : Allowance where
  publishes := fun id => ∃ revisionId points,
    r = .finishPublication revisionId points ∧ id = x.documentId
  proves := fun id target => r = .recordZeroVerification id target
  moves := fun id => closes x r true ∨ r = .commitDeletion id
  touches := fun d => d.id ∈ x.lockedDocumentIds

theorem Revises.fields (hr : Revises c c') (hc : c' = c.put d') (hd : d ∈ c.documents)
    (hid : d'.id = d.id) : d'.deletionProgress = d.deletionProgress := by
  obtain ⟨e,revisions,he,hput⟩ := hr
  have hmem : d' ∈ (c.put {e with preparedRevisions := revisions}).documents := by
    rw [← hput, hc]
    exact mem_put.2 (Or.inl rfl)
  rcases mem_put.1 hmem with rfl | ⟨hd',-⟩
  · cases Table.eq_of_key_eq he hd hid
    rfl
  · cases Table.eq_of_key_eq hd' hd hid
    rfl

theorem putDeletion_observes (hd : d ∈ c.documents) (htd : al.touches d)
    (ht : c.document? t.id = some t) (htt : al.touches t) {f : Document → Document}
    (hf : ∀ e, e.id = t.id → e.state = t.state → Within al t (f e)) :
    Observes al c (putDeletion c d o t.id f) := by
  have hput : Observes al c (c.put (d.putOperation o)) :=
    (Observes.refl al c).put hd (Within.same rfl rfl rfl) htd
  have htm := Catalog.mem_of_document? ht
  unfold putDeletion
  dsimp only
  split
  · exact hput
  · rename_i e he
    rw [Catalog.document?_put] at he
    split at he
    · rename_i hid
      obtain rfl := Option.some.inj he
      cases Table.eq_of_key_eq hd htm hid
      exact hput.put htm (hf _ rfl rfl) htt
    · obtain rfl := Option.some.inj (ht.symm.trans he)
      exact hput.put htm (hf _ rfl rfl) htt

theorem proved_failProgress {code : FailureCode} {target : IndexTarget}
    (h : Proved (failProgress code d) target) : Proved d target := by
  obtain ⟨p,hp,hz⟩ := h
  obtain ⟨q,hq,rfl⟩ := Option.map_eq_some_iff.1 hp
  exact ⟨q,hq,by cases target <;> exact hz⟩

theorem failPublication_fields {code : FailureCode} {revisionId : Option Uuid} :
    (failPublication code revisionId d).deletionProgress = d.deletionProgress := by
  unfold failPublication
  split
  · rfl
  · split <;> rfl

theorem proved_failDocument {code : FailureCode} {message : Text 500} {retryable : Bool}
    {target : IndexTarget} (h : Proved (failDocument o code message retryable d) target) :
    Proved d target := by
  unfold failDocument at h
  split at h
  · exact h
  · obtain ⟨p,hp,hz⟩ := h
    exact ⟨p,failPublication_fields.symm.trans hp,hz⟩
  · exact proved_failProgress h

theorem failDocument_not_ready {code : FailureCode} {message : Text 500} {retryable : Bool} :
    (failDocument o code message retryable d).state ≠ .ready := by
  unfold failDocument
  split
  · show (if d.state = .deleting then DocumentState.deleting else .preflightFailed) ≠ .ready
    split <;> rintro ⟨⟩
  · rintro ⟨⟩
  · rintro ⟨⟩

theorem failOperation_observes {e : ServiceError} {u : Unit}
    (h : failOperation now ref e c = .ok (u,c')) (hm : ∀ id, al.moves id)
    (hids : ∀ d o, c.document? ref.documentId = some d → d.operation? ref.operationId = some o →
      ∀ t, t ∈ c.documents → worksOn o t.id → al.touches t)
    (hself : ∀ d, d ∈ c.documents → d.id = ref.documentId → al.touches d) : Observes al c c' := by
  simp only [failOperation] at h
  split at h
  · cases h
    exact Observes.refl al c
  · rename_i d o hfound
    split at h
    · cases h
      exact Observes.refl al c
    · simp only [Option.bind_eq_some_iff, Option.map_eq_some_iff, Prod.mk.injEq] at hfound
      obtain ⟨d₁,hd,o₁,ho,rfl,rfl⟩ := hfound
      have hmem := Catalog.mem_of_document? hd
      have hself' := hself d₁ hmem (Catalog.id_of_document? hd)
      have hfailed : ∀ code message retryable, Within al d₁ (failPendingOutbox code message
          (failDocument o₁ code message retryable
            (d₁.putOperation (failedOperation now code message retryable o₁)))) := by
        intro code message retryable
        refine Within.moved failDocument_operations.1 (hm _) failDocument_not_ready
          fun target hz => ?_
        have hd₁ : Proved (d₁.putOperation (failedOperation now code message retryable o₁))
            target := proved_failDocument hz
        exact hd₁
      simp only [pure_eq_ok, Prod.mk.injEq] at h
      obtain ⟨-,rfl⟩ := h
      split
      · rename_i t _ ht
        obtain ⟨id,htarget,hlookup⟩ := Option.bind_eq_some_iff.1 ht
        have htm := Catalog.mem_of_document? hlookup
        have htt : al.touches t := by
          refine hids d₁ o₁ hd ho t htm (Or.inr ?_)
          rw [Catalog.id_of_document? hlookup]
          exact htarget
        refine ((Observes.refl al c).put htm ?_ htt).put hmem (hfailed _ _ _) hself'
        unfold failReplacementTarget
        split
        · exact Within.moved rfl (hm _) (by rintro ⟨⟩) fun _ hz => proved_failProgress hz
        · exact Within.same rfl rfl rfl
      · exact (Observes.refl al c).put hmem (hfailed _ _ _) hself'

theorem request_observes (hinv : CatalogInv s strands now c) (hclaimed : Claimed x c)
    {r : CatalogRequest} {a : r.Response} (hp : permitsCatalog s x K r)
    (h : r.run s enc now worker x.ref c = .ok (a,c')) :
    Observes (requestAllowance x r) c c' := by
  have hdoc : ∀ d, d ∈ c.documents → DocumentInv s now d := hinv.documents
  have hself : x.documentId ∈ x.lockedDocumentIds := hclaimed.self_mem hinv
  have hclean : ∀ {id}, cleans x id → id ∈ x.lockedDocumentIds := by
    rintro id (⟨-,rfl⟩ | ⟨-,-,hid⟩)
    · exact hself
    · exact hid
  have same : ∀ {α : Type} {y : Outcome α} {a : α}, reading y c = .ok (a,c') →
      Observes (requestAllowance x r) c c' := by
    intro α y a hy
    rw [(reading_ok hy).1]
    exact Observes.refl _ c
  have own : ∀ {d o}, Owned x.ref c d o → (requestAllowance x r).touches d := by
    intro d o ho
    show d.id ∈ x.lockedDocumentIds
    rw [ho.documentId]
    exact hself
  have owned : ∀ {e : ServiceError} {d d' o}, ownedOperation worker x.ref c e = .ok (d,o) →
      Within (requestAllowance x r) d d' → Observes (requestAllowance x r) c (c.put d') := by
    intro e d d' o ho hw
    have hown := ownedOperation_ok ho
    exact (Observes.refl _ c).put hown.document hw (own hown)
  -- the stages of a preparation write the own document
  have stage : ∀ {α : Type} {id : Uuid} {e : ServiceError}
      {f : Document → Outcome (α × Document)} {b : α}, writesRevision r = true →
      onDocument c id e f = .ok (b,c') → id = x.documentId →
      (∀ d d', d ∈ c.documents → d.id = id → f d = .ok (b,d') →
        Still s (fun _ => True) now d d') → Observes (requestAllowance x r) c c' := by
    intro α id e f b hr hrun hid hf
    obtain ⟨d,d',hd,hstep,hput⟩ := onDocument_ok hrun
    have hmem := Catalog.mem_of_document? hd
    have hdid := Catalog.id_of_document? hd
    have hstill := hf d d' hmem hdid hstep
    have hprogress := (request_revises h hr).fields hput hmem hstill.change.id
    rw [hput]
    refine (Observes.refl _ c).put hmem (Within.same hstill.change.id hstill.state hprogress) ?_
    show d.id ∈ x.lockedDocumentIds
    rw [hdid, hid]
    exact hself
  have index : ∀ {d d' : Document} {id}, c.document? id = some d → id ∈ x.lockedDocumentIds →
      Within (requestAllowance x r) d d' → Observes (requestAllowance x r) c (c.put d') := by
    intro d d' id hd hid hw
    refine (Observes.refl _ c).put (Catalog.mem_of_document? hd) hw ?_
    show d.id ∈ x.lockedDocumentIds
    rw [Catalog.id_of_document? hd]
    exact hid
  cases r with
  | operationSnapshot | preflightSource | loadPreparedMarkdownPages | reconstructChunkPoints
  | latestMutableRevision | artifactSequence | catalogCandidateContext | classificationExcerpts
  | publicationBinding | deletionCheckpoint | deletionFlags | purgeBinding => exact same h
  | beginPreparation identity =>
    refine stage rfl h rfl fun d d' hd hid hrun => ?_
    obtain ⟨definition,hdef,hidentity⟩ := hp.2
    obtain ⟨d₁,o,hf⟩ := hclaimed
    cases Table.eq_of_key_eq hf.document hd (hf.documentId.trans hid.symm)
    exact (beginPreparation_still (hdoc _ hd) hrun
      ⟨definition,hf.collection.symm ▸ hdef,hidentity⟩).1
  | recordExtraction =>
    exact stage rfl h hp.2.2 fun d d' hd _ hrun => recordExtraction_still (hdoc d hd) hrun
  | recordFormatting =>
    exact stage rfl h hp.2.2 fun d d' hd _ hrun => recordFormatting_still (hdoc d hd) hrun
  | recordChunkVectors =>
    exact stage rfl h hp.2.2 fun d d' hd _ hrun => recordChunkVectors_still (hdoc d hd) hrun
  | failPreparation =>
    exact stage rfl h rfl fun d d' hd _ hrun => failPreparation_still (hdoc d hd) hrun
  | insertArtifact =>
    exact stage rfl h rfl fun d d' hd _ hrun => insertArtifact_still (hdoc d hd) hrun
  | recordPreflightCandidates =>
    exact stage rfl h hp.2.2 fun d d' hd _ hrun =>
      recordPreflightCandidates_still (hdoc d hd) hrun
  | appendAdvisoryEvidence =>
    exact stage rfl h hp.2.2 fun d d' hd _ hrun => appendAdvisoryEvidence_still (hdoc d hd) hrun
  | sealPreparedRevision =>
    exact stage rfl h hp.1.2.2 fun d d' hd _ hrun =>
      sealPreparedRevision_still (hdoc d hd) hrun hp.2
  | setPhase phase =>
    simp only [CatalogRequest.run, setPhase, bind_eq_ok, Prod.exists, pure_eq_ok,
      Prod.mk.injEq] at h
    obtain ⟨d,o,howned,-,rfl⟩ := h
    exact owned howned (Within.same rfl rfl rfl)
  | bindRevision id =>
    simp only [CatalogRequest.run, bindRevision, bind_eq_ok, orRaise_eq_ok, Prod.exists,
      pure_eq_ok, Prod.mk.injEq] at h
    obtain ⟨d,o,howned,r,-,-,rfl⟩ := h
    exact owned howned (Within.same rfl rfl rfl)
  | failOperation e =>
    refine failOperation_observes h (fun _ => Or.inl trivial) ?_ ?_
    · intro d o hd ho t _ hw
      obtain ⟨d₁,o₁,hf⟩ := hclaimed
      cases Table.eq_of_key_eq hf.document (Catalog.mem_of_document? hd)
        (hf.documentId.trans (Catalog.id_of_document? hd).symm)
      cases Table.eq_of_key_eq hf.operation (Table.mem_of_lookup ho)
        (hf.operationId.trans (Table.key_of_lookup ho).symm)
      refine (hf.mem_locked hinv).2 (hw.imp_left fun he => ?_)
      rw [← he, ← hf.documentId]
      exact ((hinv.documents d hf.document).operations.valid o hf.operation).document
    · intro d _ hid
      show d.id ∈ x.lockedDocumentIds
      rw [hid]
      exact hself
  | beginOutbox k n =>
    obtain ⟨d,d',hd,hrun,rfl⟩ := onDocument_ok h
    refine index hd hp.2 ?_
    simp only [Worker.beginOutbox, bind_eq_ok, require_eq_ok, exists_const] at hrun
    obtain ⟨-,hrun⟩ := hrun
    split at hrun
    · cases hrun
      exact Within.same rfl rfl rfl
    · simp only [bind_eq_ok, require_eq_ok, exists_const, pure_eq_ok, Prod.mk.injEq] at hrun
      obtain ⟨-,-,rfl⟩ := hrun
      exact Within.same rfl rfl rfl
  | completeOutbox k =>
    obtain ⟨d,d',hd,hrun,rfl⟩ := onDocument_ok h
    simp only [Worker.completeOutbox, bind_eq_ok, orRaise_eq_ok, require_eq_ok, exists_const,
      pure_eq_ok, Prod.mk.injEq] at hrun
    obtain ⟨e,-,-,-,rfl⟩ := hrun
    exact index hd hp.2 (Within.same rfl rfl rfl)
  | countDeletionAttempt id =>
    obtain ⟨d,d',hd,hrun,rfl⟩ := onDocument_ok h
    simp only [Worker.countDeletionAttempt, bind_eq_ok, orRaise_eq_ok, pure_eq_ok,
      Prod.mk.injEq] at hrun
    obtain ⟨p,hprogress,-,rfl⟩ := hrun
    refine index hd (hclean hp.2) (Within.progress rfl rfl hprogress rfl ?_)
    intro target hz
    exact Or.inl (by cases target <;> exact hz)
  | acceptRejection reason active =>
    simp only [CatalogRequest.run, acceptRejection, bind_eq_ok, Prod.exists, pure_eq_ok,
      Prod.mk.injEq] at h
    obtain ⟨d,o,howned,o₁,d',hqueue,-,rfl⟩ := h
    have ho := ownedOperation_ok howned
    have hstate := ho.preflighting hinv ((hclaimed.type ho).trans hp.1.2.1)
    have hlive := (hdoc d ho.document).deletion.live (by rw [hstate]; rfl)
    obtain rfl := queueRejectionCleanup_ok hqueue hstate hlive.1
    refine owned howned (Within.moved rfl (Or.inl rfl) (by rintro ⟨⟩) fun _ hz => ?_)
    exact absurd hz (not_proved_freshProgress rfl)
  | finishPreflight prepared =>
    simp only [CatalogRequest.run, finishPreflight, bind_eq_ok, orRaise_eq_ok, require_eq_ok,
      exists_const, Prod.exists] at h
    obtain ⟨d,o,howned,r,-,-,hstate,h⟩ := h
    split at h
    · simp only [queueClearPublication, hstate, reduceCtorEq, if_false, bind_eq_ok,
        require_eq_ok, exists_const, Prod.exists, pure_eq_ok, Prod.mk.injEq] at h
      obtain ⟨o₁,d',⟨-,d₁,hensure,henqueue⟩,-,rfl⟩ := h
      obtain ⟨hid₁,-,hp₁⟩ := ensurePublicationRecord_fields hensure
      obtain ⟨hid',hs',hp'⟩ := enqueueOperation_fields henqueue
      refine owned howned (Within.moved (hid'.trans hid₁) (Or.inl rfl) ?_ fun target hz => ?_)
      · show d'.state ≠ .ready
        rw [hs']
        rintro ⟨⟩
      · obtain ⟨p,hq,hz⟩ := hz
        exact ⟨p,(hp'.trans hp₁).symm.trans hq,hz⟩
    · simp only [pure_eq_ok, Prod.mk.injEq] at h
      obtain ⟨-,rfl⟩ := h
      exact owned howned (Within.moved rfl (Or.inl rfl) (by rintro ⟨⟩) fun _ hz => hz)
  | markUpserted id =>
    simp only [CatalogRequest.run, markUpserted, bind_eq_ok, orRaise_eq_ok, require_eq_ok,
      exists_const, Prod.exists, pure_eq_ok, Prod.mk.injEq] at h
    obtain ⟨d,o,howned,p,-,-,-,rfl⟩ := h
    exact owned howned (Within.same rfl rfl rfl)
  | finishPublication id n =>
    obtain ⟨d,o,r,p,ho,-,-,-,-,-,-,-,-,rfl⟩ := finishPublication_ok h
    refine (Observes.refl _ c).put ho.document ⟨rfl,Or.inr (Or.inl rfl),fun _ => ?_,fun _ hz =>
      Or.inl hz⟩ ?_
    · exact Or.inr ⟨id,n,rfl,ho.documentId⟩
    · exact own ho
  | setDeletionPhase id phase =>
    simp only [CatalogRequest.run, setDeletionPhase, bind_eq_ok, orRaise_eq_ok, require_eq_ok,
      exists_const, Prod.exists, pure_eq_ok, Prod.mk.injEq] at h
    obtain ⟨d,o,howned,t,ht,p,hprogress,-,-,rfl⟩ := h
    have ho := ownedOperation_ok howned
    cases Catalog.id_of_document? ht
    refine putDeletion_observes ho.document (own ho) ht (hclean hp.2) ?_
    intro e hid hstate
    exact Within.progress hid hstate hprogress rfl fun target hz =>
      Or.inl (by cases target <;> exact hz)
  | recordZeroVerification id target =>
    simp only [CatalogRequest.run, recordZeroVerification, bind_eq_ok, orRaise_eq_ok,
      Prod.exists] at h
    obtain ⟨d,o,howned,t,ht,p,hprogress,h⟩ := h
    have ho := ownedOperation_ok howned
    cases Catalog.id_of_document? ht
    cases target with
    | active =>
      simp only [pure_eq_ok, Prod.mk.injEq] at h
      obtain ⟨-,rfl⟩ := h
      refine putDeletion_observes ho.document (own ho) ht (hclean hp.1.2) ?_
      intro e hid hstate
      refine Within.progress hid hstate hprogress rfl fun target hz => ?_
      cases target with
      | active => exact Or.inr rfl
      | screening => exact Or.inl hz
    | screening =>
      simp only [bind_eq_ok, require_eq_ok, exists_const, pure_eq_ok, Prod.mk.injEq] at h
      obtain ⟨-,-,rfl⟩ := h
      refine putDeletion_observes ho.document (own ho) ht (hclean hp.1.2) ?_
      intro e hid hstate
      refine Within.progress hid hstate hprogress rfl fun target hz => ?_
      cases target with
      | active => exact Or.inl hz
      | screening => exact Or.inr rfl
  | purgeContentRows id b =>
    simp only [CatalogRequest.run, purgeContentRows, bind_eq_ok, orRaise_eq_ok, require_eq_ok,
      exists_const, Prod.exists, pure_eq_ok, Prod.mk.injEq] at h
    obtain ⟨d,o,howned,t,ht,p,hprogress,-,-,rfl⟩ := h
    have ho := ownedOperation_ok howned
    cases Catalog.id_of_document? ht
    refine putDeletion_observes ho.document (own ho) ht (hclean hp.1.2) ?_
    intro e hid hstate
    exact Within.progress hid hstate hprogress rfl fun target hz =>
      Or.inl (by cases target <;> exact hz)
  | commitDeletion id =>
    simp only [CatalogRequest.run, commitDeletion, bind_eq_ok, orRaise_eq_ok, require_eq_ok,
      exists_const, Prod.exists, pure_eq_ok, Prod.mk.injEq] at h
    obtain ⟨d,o,howned,t,ht,p,-,-,t',hcommit,-,rfl⟩ := h
    cases Catalog.id_of_document? ht
    have hw : Within (requestAllowance x (.commitDeletion t.id)) t t' := by
      rcases commitTombstone_ok hcommit with ⟨rfl,-⟩ | ⟨-,q,y,hq,-,-,-,rfl⟩
      · exact Within.refl _ _
      · refine Within.moved rfl (Or.inr rfl) ?_ fun target hz => ?_
        · show q.terminalDisposition.toState ≠ .ready
          cases q.terminalDisposition <;> rintro ⟨⟩
        · obtain ⟨q',hq',hz⟩ := hz
          cases hq'
          exact ⟨q,hq,by cases target <;> exact hz⟩
    refine index ht (hclean hp.2) ?_
    split
    · exact ⟨hw.id,hw.state,hw.ready,hw.zeros⟩
    · exact hw

end Lifecycle
end PdfBridge
