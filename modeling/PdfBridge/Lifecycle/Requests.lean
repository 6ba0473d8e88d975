import PdfBridge.Lifecycle.Threads
import PdfBridge.Lifecycle.Transactions

/-! The requests that the protocol permits, as transitions of the catalog, and the answers that
the catalog gives to them. -/
namespace PdfBridge
namespace Lifecycle
open Intake Preparation Worker

variable {s : Settings} {enc : Encoding} {strands : Prop} {rejects : FailureCode → Prop}
  {now : Time} {worker : Uuid}
  {x : ClaimedOperation} {K : Knowledge} {c c' : Catalog} {d d' t : Document}
  {o o' : WorkOperation}

/-! ### Every transaction moves documents by transitions -/

/-- A document is carried over by the transaction. -/
theorem CatalogChange.forward (hc : CatalogChange s strands rejects now c c')
    (h : CatalogInv s strands now c) (hd : d ∈ c.documents) :
    ∃ d', d' ∈ c'.documents ∧ Change s rejects now d d' := by
  have refl : ∀ d, Change s rejects now d d := fun d =>
    Change.touch d.operations (forall₂_touch_refl _)
  have put : ∀ {c : Catalog} {x x'}, x ∈ c.documents → d ∈ c.documents → Change s rejects now x x' →
      ∃ d', d' ∈ (c.put x').documents ∧ Change s rejects now d d' := by
    intro c x x' hx hd hchange
    by_cases he : d.id = x'.id
    · cases Table.eq_of_key_eq hd hx (he.trans hchange.id)
      exact ⟨x',mem_put.2 (Or.inl rfl),hchange⟩
    · exact ⟨d,mem_put.2 (Or.inr ⟨hd,he⟩),refl d⟩
  have two : ∀ {i i' t t' : Document}, i ∈ c.documents → t ∈ c.documents → i.id ≠ t.id →
      Change s rejects now i i' → Change s rejects now t t' →
      ∃ d', d' ∈ ((c.put t').put i').documents ∧ Change s rejects now d d' := by
    intro i i' t t' hi ht hne hci hct
    by_cases hdi : d.id = i.id
    · cases Table.eq_of_key_eq hd hi hdi
      exact ⟨i',mem_put_put.2 (Or.inl rfl),hci⟩
    by_cases hdt : d.id = t.id
    · cases Table.eq_of_key_eq hd ht hdt
      exact ⟨t',mem_put_put.2 (Or.inr (Or.inl ⟨rfl,by rw [hct.id, hci.id]; exact hne.symm⟩)),hct⟩
    · exact ⟨d,mem_put_put.2 (Or.inr (Or.inr ⟨hd,hct.id.symm ▸ hdt,hci.id.symm ▸ hdi⟩)),refl d⟩
  cases hc with
  | same => exact ⟨d,hd,refl d⟩
  | arrive x =>
    refine ⟨d,mem_put.2 (Or.inr ⟨hd,fun he => ?_⟩),refl d⟩
    have hlt := (h.documents d hd).fresh
    have hdrawn := congrArg Uuid.drawnAt ((h.documents d hd).drawn.symm.trans he)
    simp only [uuid4_drawnAt] at hdrawn
    rw [hdrawn] at hlt
    exact lt_irrefl _ hlt
  | leases f hf ht =>
    exact ⟨_,mem_mapOperations.2 ⟨d,hd,rfl⟩,Change.touch _ (forall₂_touch_map ht _)⟩
  | one hx hchange => exact put hx hd hchange
  | pair hi ht hown hci hct => exact two hi ht (h.owns hi ht hown).ne hci hct
  | @replace i t hi ht hne hcollection histate htstate r points y p hr hsealed hpoints hy hmanifest
      haction htarget hp hdisposition hdrawn =>
    exact two hi ht hne (@Change.decide s rejects now i histate r points y .replacement
      (some t.id) hr hsealed hpoints hy hmanifest (Or.inr ⟨haction,htarget,rfl⟩) rfl
      (fun he => hne (Option.some.inj he).symm) hdrawn) (Change.yield_ htstate hp hdisposition i.id)

/-- A document after a transaction is an old one that moved, or a new one. -/
theorem CatalogChange.backward (hc : CatalogChange s strands rejects now c c')
    (hd' : d' ∈ c'.documents) :
    (∃ d, d ∈ c.documents ∧ Change s rejects now d d') ∨ ∃ x, d' = admitted now x := by
  have refl : ∀ d, Change s rejects now d d := fun d =>
    Change.touch d.operations (forall₂_touch_refl _)
  cases hc with
  | same => exact Or.inl ⟨d',hd',refl d'⟩
  | arrive x =>
    rcases mem_put.1 hd' with rfl | ⟨hd,-⟩
    · exact Or.inr ⟨x,rfl⟩
    · exact Or.inl ⟨d',hd,refl d'⟩
  | leases f hf ht =>
    obtain ⟨d,hd,rfl⟩ := mem_mapOperations.1 hd'
    exact Or.inl ⟨d,hd,Change.touch _ (forall₂_touch_map ht _)⟩
  | one hx hchange =>
    rcases mem_put.1 hd' with rfl | ⟨hd,-⟩
    · exact Or.inl ⟨_,hx,hchange⟩
    · exact Or.inl ⟨d',hd,refl d'⟩
  | pair hi ht hown hci hct =>
    rcases mem_put_put.1 hd' with rfl | ⟨rfl,-⟩ | ⟨hd,-⟩
    · exact Or.inl ⟨_,hi,hci⟩
    · exact Or.inl ⟨_,ht,hct⟩
    · exact Or.inl ⟨d',hd,refl d'⟩
  | @replace i t hi ht hne hcollection histate htstate r points y p hr hsealed hpoints hy hmanifest
      haction htarget hp hdisposition hdrawn =>
    rcases mem_put_put.1 hd' with rfl | ⟨rfl,-⟩ | ⟨hd,-⟩
    · exact Or.inl ⟨i,hi,@Change.decide s rejects now i histate r points y .replacement
        (some t.id) hr hsealed hpoints hy hmanifest (Or.inr ⟨haction,htarget,rfl⟩) rfl
        (fun he => hne (Option.some.inj he).symm) hdrawn⟩
    · exact Or.inl ⟨t,ht,Change.yield_ htstate hp hdisposition i.id⟩
    · exact Or.inl ⟨d',hd,refl d'⟩

/-! ### The claimed operation in the catalog -/

/-- The operation that a thread has claimed is an operation of its document, with the class and
the documents that the claim recorded. -/
structure ClaimFits (x : ClaimedOperation) (c : Catalog) (d : Document) (o : WorkOperation) :
    Prop where
  document : d ∈ c.documents
  documentId : d.id = x.documentId
  collection : d.intake.collectionKey = x.collectionKey
  operation : o ∈ d.operations
  operationId : o.id = x.operationId
  type : o.operationType = x.operationType
  locked : lockedDocuments o = x.lockedDocumentIds

def Claimed (x : ClaimedOperation) (c : Catalog) : Prop := ∃ d o, ClaimFits x c d o

theorem SameBinding.locked (h : SameBinding o o') : lockedDocuments o' = lockedDocuments o := by
  unfold lockedDocuments
  rw [h.document, h.target]

theorem Claimed.change (h : Claimed x c) (hinv : CatalogInv s strands now c)
    (hc : CatalogChange s strands rejects now c c') : Claimed x c' := by
  obtain ⟨d,o,hf⟩ := h
  obtain ⟨d',hd',hchange⟩ := hc.forward hinv hf.document
  obtain ⟨front,hcont,-⟩ := hchange.continues (hinv.documents d hf.document)
  obtain ⟨o',ho',hs⟩ := exists_sameBinding hcont hf.operation
  exact ⟨d',o',hd',hchange.id.trans hf.documentId,
    (congrArg PdfBridge.Intake.collectionKey hchange.intake).trans hf.collection,ho',
    hs.id.trans hf.operationId,hs.type.trans hf.type,hs.locked.trans hf.locked⟩

/-- The running operation of a thread is the claimed one. -/
theorem Claimed.owned (h : Claimed x c) (ho : Owned x.ref c d o) : ClaimFits x c d o := by
  obtain ⟨d₁,o₁,hf⟩ := h
  cases Table.eq_of_key_eq hf.document ho.document (hf.documentId.trans ho.documentId.symm)
  cases Table.eq_of_key_eq hf.operation ho.operation (hf.operationId.trans ho.operationId.symm)
  exact hf

theorem mem_lockedDocuments {id : Uuid} : id ∈ lockedDocuments o ↔
    id = o.documentId ∨ o.replacementTargetDocumentId = some id := by
  unfold lockedDocuments
  rw [List.mem_dedup, List.mem_cons, Option.mem_toList]

theorem ClaimFits.mem_locked (h : ClaimFits x c d o) (hinv : CatalogInv s strands now c)
    {id : Uuid} : id ∈ x.lockedDocumentIds ↔
      id = x.documentId ∨ o.replacementTargetDocumentId = some id := by
  rw [← h.locked, mem_lockedDocuments,
    ((hinv.documents d h.document).operations.valid o h.operation).document, h.documentId]

theorem Claimed.self_mem (h : Claimed x c) (hinv : CatalogInv s strands now c) :
    x.documentId ∈ x.lockedDocumentIds := by
  obtain ⟨d,o,hf⟩ := h
  exact (hf.mem_locked hinv).2 (Or.inl rfl)

theorem ClaimFits.worksOn (h : ClaimFits x c d o) (hinv : CatalogInv s strands now c) {id : Uuid}
    (hclean : cleans x id) : worksOn o id := by
  have hdoc := ((hinv.documents d h.document).operations.valid o h.operation).document
  rcases hclean with ⟨-,rfl⟩ | ⟨-,hne,hmem⟩
  · exact Or.inl (hdoc.trans h.documentId)
  · exact Or.inr (((h.mem_locked hinv).1 hmem).resolve_left hne)

/-! ### Permitted requests are transitions -/

theorem reading_ok {α : Type} {y : Outcome α} {a : α} (h : reading y c = .ok (a,c')) :
    c' = c ∧ y = .ok a := by
  unfold reading at h
  cases y with
  | error e => cases h
  | ok b =>
    cases h
    exact ⟨rfl,rfl⟩

/-- A transaction on one document that only moves it on. -/
theorem onDocument_change {α : Type} {id : Uuid} {e : ServiceError}
    {f : Document → Outcome (α × Document)} {a : α}
    (h : onDocument c id e f = .ok (a,c'))
    (hf : ∀ d d', d ∈ c.documents → d.id = id → f d = .ok (a,d') → Still s rejects now d d') :
    CatalogChange s strands rejects now c c' := by
  simp only [onDocument, bind_eq_ok, orRaise_eq_ok, Prod.exists, pure_eq_ok, Prod.mk.injEq] at h
  obtain ⟨d,hd,b,d',hrun,rfl,rfl⟩ := h
  have hm := Catalog.mem_of_document? hd
  exact CatalogChange.still hm (hf d d' hm (Catalog.id_of_document? hd) hrun)

theorem Claimed.type (h : Claimed x c) (ho : Owned x.ref c d o) :
    o.operationType = x.operationType := (h.owned ho).type

theorem allowedPhase_of_false {type : OperationType} {replacement : Bool} {phase : OperationPhase}
    (h : allowedPhase type false phase = true) : allowedPhase type replacement phase = true := by
  cases type with
  | publish =>
    cases replacement with
    | false => exact h
    | true =>
      simp only [allowedPhase, Bool.false_and, Bool.or_false] at h
      simp [allowedPhase, h]
  | _ => exact h

/-- Every catalog request that the protocol permits is a transition of the catalog. -/
theorem request_change (hinv : CatalogInv s strands now c) (hclaimed : Claimed x c)
    {r : CatalogRequest} {a : r.Response} (hp : permitsCatalog s x K r)
    (hrejects : ∀ code active, r = .acceptRejection code active → rejects code)
    (h : r.run s enc now worker x.ref c = .ok (a,c')) :
    CatalogChange s strands rejects now c c' := by
  have hdoc : ∀ d, d ∈ c.documents → DocumentInv s now d := hinv.documents
  have same : ∀ {α : Type} {y : Outcome α} {a : α}, reading y c = .ok (a,c') →
      CatalogChange s strands rejects now c c' := by
    intro α y a hy
    rw [(reading_ok hy).1]
    exact CatalogChange.same
  cases r with
  | operationSnapshot | preflightSource | loadPreparedMarkdownPages | reconstructChunkPoints
  | latestMutableRevision | artifactSequence | catalogCandidateContext | classificationExcerpts
  | publicationBinding | deletionCheckpoint | deletionFlags | purgeBinding => exact same h
  | setPhase phase =>
    refine setPhase_change h fun d o ho => allowedPhase_of_false ?_
    rw [hclaimed.type ho]
    exact hp.2
  | bindRevision id =>
    exact bindRevision_change h fun d o ho => (hclaimed.type ho).trans hp.2.1
  | failOperation e => exact failOperation_change hinv h
  | beginPreparation identity =>
    refine onDocument_change h fun d d' hd hid hrun => ?_
    obtain ⟨definition,hdef,hidentity⟩ := hp.2
    obtain ⟨d₁,o,hf⟩ := hclaimed
    cases Table.eq_of_key_eq hf.document hd (hf.documentId.trans hid.symm)
    exact (beginPreparation_still (hdoc _ hd) hrun
      ⟨definition,hf.collection.symm ▸ hdef,hidentity⟩).1
  | recordExtraction =>
    exact onDocument_change h fun d d' hd _ hrun => recordExtraction_still (hdoc d hd) hrun
  | recordFormatting =>
    exact onDocument_change h fun d d' hd _ hrun => recordFormatting_still (hdoc d hd) hrun
  | recordChunkVectors =>
    exact onDocument_change h fun d d' hd _ hrun => recordChunkVectors_still (hdoc d hd) hrun
  | failPreparation =>
    exact onDocument_change h fun d d' hd _ hrun => failPreparation_still (hdoc d hd) hrun
  | insertArtifact =>
    exact onDocument_change h fun d d' hd _ hrun => insertArtifact_still (hdoc d hd) hrun
  | beginOutbox => exact onDocument_change h fun d d' _ _ hrun => beginOutbox_still hrun
  | completeOutbox => exact onDocument_change h fun d d' _ _ hrun => completeOutbox_still hrun
  | acceptRejection reason active =>
    refine acceptRejection_change hinv h (hrejects reason active rfl) fun d o ho => ?_
    have hf := hclaimed.owned ho
    obtain ⟨definition,hdef,hactive⟩ := Option.map_eq_some_iff.1 hp.2
    exact ⟨hf.type.trans hp.1.2.1,definition,hf.collection.symm ▸ hdef,hactive.symm⟩
  | recordPreflightCandidates =>
    exact onDocument_change h fun d d' hd _ hrun =>
      recordPreflightCandidates_still (hdoc d hd) hrun
  | appendAdvisoryEvidence =>
    exact onDocument_change h fun d d' hd _ hrun => appendAdvisoryEvidence_still (hdoc d hd) hrun
  | sealPreparedRevision =>
    exact onDocument_change h fun d d' hd _ hrun =>
      sealPreparedRevision_still (hdoc d hd) hrun hp.2
  | finishPreflight => exact finishPreflight_change hinv h
  | markUpserted =>
    exact markUpserted_change hinv h fun d o ho => (hclaimed.type ho).trans hp.2
  | finishPublication => exact finishPublication_change hinv h
  | countDeletionAttempt => exact countDeletionAttempt_change h
  | setDeletionPhase => exact setDeletionPhase_change hinv h
  | recordZeroVerification =>
    exact recordZeroVerification_change hinv h fun d o ho =>
      (hclaimed.owned ho).worksOn hinv hp.1.2
  | purgeContentRows =>
    exact purgeContentRows_change hinv h fun d o ho => (hclaimed.owned ho).worksOn hinv hp.1.2
  | commitDeletion =>
    exact commitDeletion_change hinv h fun d o ho => (hclaimed.owned ho).worksOn hinv hp.2

/-! ### Answers -/

theorem loadRevision_ok {id : Uuid} {r : PreparedRevision}
    (h : loadRevision d id = .ok r) : r ∈ d.preparedRevisions ∧ r.id = id := by
  simp only [loadRevision, orRaise_eq_ok] at h
  exact ⟨Table.mem_of_lookup h,Table.key_of_lookup h⟩

/-- The points of a revision belong to its document and to the collection of the revision. -/
theorem chunkPoints_own {r : PreparedRevision} :
    ∀ (cs : List PreparedChunk) (i : ℕ) {ps : List ChunkPoint},
      chunkPoints enc d r i cs = .ok ps → ∀ p ∈ ps, p.documentId = d.id ∧
        p.chunkId.documentId = d.id ∧ p.preparedRevisionId = r.id ∧
        p.activeQdrantCollection = r.identity.activeQdrantCollection
  | [], _, ps, h, p, hp => by
    simp only [chunkPoints, pure_eq_ok] at h
    rw [← h] at hp
    cases hp
  | k :: cs, i, ps, h, p, hp => by
    simp only [chunkPoints, chunkPoint, bind_eq_ok, require_eq_ok, exists_const, pure_eq_ok] at h
    obtain ⟨q,⟨hk,_,-,_,-,-,rfl⟩,qs,hqs,rfl⟩ := h
    rcases List.mem_cons.1 hp with rfl | hp
    · exact ⟨rfl,by rw [hk.2.1]; rfl,rfl,rfl⟩
    · exact chunkPoints_own cs (i + 1) hqs p hp

theorem reconstruct_own {id : Uuid} {sealed_ : Bool} {ps : List ChunkPoint}
    (h : reconstructChunkPoints enc id sealed_ d = .ok ps) :
    ∃ r, r ∈ d.preparedRevisions ∧ r.id = id ∧ (sealed_ = true → r.status = .sealed) ∧
      validateChunkRows enc d r = .ok ps ∧ ∀ p ∈ ps, p.documentId = d.id ∧
        p.chunkId.documentId = d.id ∧ p.preparedRevisionId = id ∧
        p.activeQdrantCollection = r.identity.activeQdrantCollection := by
  simp only [reconstructChunkPoints, bind_eq_ok, require_eq_ok, exists_const] at h
  obtain ⟨r,hr,hsealed,hrows⟩ := h
  obtain ⟨hm,rfl⟩ := loadRevision_ok hr
  refine ⟨r,hm,rfl,hsealed,hrows,?_⟩
  simp only [validateChunkRows, bind_eq_ok, require_eq_ok, exists_const, pure_eq_ok] at hrows
  obtain ⟨-,qs,hqs,-,-,rfl⟩ := hrows
  exact chunkPoints_own _ _ hqs

theorem ClaimFits.active (h : ClaimFits x c d o) (hinv : CatalogInv s strands now c)
    {r : PreparedRevision} (hr : r ∈ d.preparedRevisions) :
    activeName? s x.collectionKey = some r.identity.activeQdrantCollection := by
  obtain ⟨definition,hdef,hname⟩ := (hinv.documents d h.document).revision_active hr
  rw [activeName?, ← h.collection, hdef, hname]
  rfl

theorem ownedOperation_of {e : ServiceError} (h : ownedOperation worker x.ref c e = .ok (d,o))
    (hclaimed : Claimed x c) : ClaimFits x c d o := hclaimed.owned (ownedOperation_ok h)

/-- The answers of the catalog to the requests of a thread are those of the protocol. -/
theorem request_answers (hinv : CatalogInv s strands now c) (hclaimed : Claimed x c)
    {r : CatalogRequest} {a : r.Response} (h : r.run s enc now worker x.ref c = .ok (a,c')) :
    answers s x (.catalog r) (.ok a) := by
  cases r with
  | operationSnapshot =>
    have h' := (reading_ok h).2
    simp only [operationSnapshot, bind_eq_ok, Prod.exists, pure_eq_ok] at h'
    obtain ⟨d,o,howned,rfl⟩ := h'
    have hf := ownedOperation_of howned hclaimed
    refine ⟨hf.type,fun he => ?_,fun id => hf.mem_locked hinv⟩
    exact ((hinv.documents d hf.document).operations.valid o hf.operation).target
      (he.trans (congrArg some hf.documentId.symm))
  | preflightSource =>
    have h' := (reading_ok h).2
    simp only [preflightSource, bind_eq_ok, orRaise_eq_ok, require_eq_ok, exists_const,
      Prod.exists, pure_eq_ok] at h'
    obtain ⟨d,o,howned,-,-,key,-,rfl⟩ := h'
    exact (ownedOperation_of howned hclaimed).collection
  | beginPreparation identity =>
    simp only [CatalogRequest.run, onDocument, beginPreparation, bind_eq_ok, orRaise_eq_ok,
      require_eq_ok, exists_const, Prod.exists, pure_eq_ok, Prod.mk.injEq] at h
    obtain ⟨d,hd,b,d',⟨-,rfl,-⟩,rfl,-⟩ := h
    exact Catalog.id_of_document? hd
  | reconstructChunkPoints id sealed_ =>
    have h' := (reading_ok h).2
    simp only [bind_eq_ok, orRaise_eq_ok] at h'
    obtain ⟨d,hd,hps⟩ := h'
    obtain ⟨d₁,o,hf⟩ := hclaimed
    have hid : d.id = x.documentId := Catalog.id_of_document? hd
    cases Table.eq_of_key_eq hf.document (Catalog.mem_of_document? hd)
      (hf.documentId.trans hid.symm)
    obtain ⟨r,hr,-,-,-,hown⟩ := reconstruct_own hps
    intro p hp
    obtain ⟨hdoc,hchunk,-,hactive⟩ := hown p hp
    exact ⟨hdoc.trans hid,hchunk.trans hid,by rw [hactive]; exact hf.active hinv hr⟩
  | publicationBinding id =>
    have h' := (reading_ok h).2
    simp only [publicationBinding, bind_eq_ok, orRaise_eq_ok, require_eq_ok, exists_const,
      Prod.exists, pure_eq_ok] at h'
    obtain ⟨d,o,howned,r,hr,p,-,⟨-,-,hname,-,-⟩,rfl⟩ := h'
    show activeName? s x.collectionKey = some p.activeQdrantCollection
    rw [hname]
    exact (ownedOperation_of howned hclaimed).active hinv (Table.mem_of_lookup hr)
  | deletionCheckpoint id =>
    have h' := (reading_ok h).2
    simp only [deletionCheckpoint, bind_eq_ok, orRaise_eq_ok, require_eq_ok, exists_const,
      Prod.exists, pure_eq_ok] at h'
    obtain ⟨d,o,howned,t,ht,hw,p,hp,-,rfl⟩ := h'
    have hf := ownedOperation_of howned hclaimed
    have htm := Catalog.mem_of_document? ht
    have hprogress := (hinv.documents t htm).deletion.of_some hp
    have hkey : t.intake.collectionKey = x.collectionKey := by
      cases Catalog.id_of_document? ht
      rcases (ownedOperation_ok howned).cleanup hinv htm hw hp with ⟨rfl,-⟩ | ⟨-,-,-,hr,-⟩
      · exact hf.collection
      · exact (hinv.owns hf.document htm hr).collection.symm.trans hf.collection
    obtain ⟨definition,hdef,hname⟩ := hprogress.active
    refine ⟨?_,hprogress.screening⟩
    show activeName? s x.collectionKey = some p.activeQdrantCollection
    rw [activeName?, ← hkey, hdef, hname]
    rfl
  | _ => trivial

end Lifecycle
end PdfBridge
