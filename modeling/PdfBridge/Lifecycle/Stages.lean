import Mathlib.Data.List.Dedup
import PdfBridge.Lifecycle.CatalogChange

/-! Preparation stages, index entries and leases: the transactions that leave the state of
every document as it is. -/
namespace PdfBridge
namespace Lifecycle
open Intake Preparation Api

variable {s : Settings} {enc : Encoding} {strands : Prop} {rejects : FailureCode → Prop}
  {now : Time} {c c' : Catalog}
  {d d' : Document} {o o' : WorkOperation}

/-- A transition that keeps the state, the failure mark and the links of a document. -/
structure Still (s : Settings) (rejects : FailureCode → Prop) (now : Time)
    (d d' : Document) : Prop where
  change : Change s rejects now d d'
  state : d'.state = d.state
  retryable : d'.failureRetryable = d.failureRetryable
  replaced : d'.replacedByDocumentId = d.replacedByDocumentId
  decisions : d'.decisions = d.decisions

theorem CatalogChange.still (hd : d ∈ c.documents) (h : Still s rejects now d d') :
    CatalogChange s strands rejects now c (c.put d') := by
  refine CatalogChange.one hd h.change h.replaced (fun x hx _ => h.decisions ▸ hx)
    (fun _ => Or.inl ⟨h.state,h.retryable⟩) (fun t _ _ hf => ?_)
  unfold Fits
  rw [h.state, h.retryable]
  exact hf

/-! ### Operations -/

theorem forall₂_touch_put (ho : o ∈ d.operations) (ht : Touch o o') :
    List.Forall₂ Touch d.operations.rows (d.putOperation o').operations.rows := by
  have hrows : (d.putOperation o').operations.rows =
      d.operations.rows.map (Table.replacing WorkOperation.id o') :=
    Table.rows_put_of_mem ho ht.id.symm
  rw [hrows, List.forall₂_map_right_iff, List.forall₂_same]
  intro x hx
  unfold Table.replacing
  split
  · rename_i he
    cases Table.eq_of_key_eq (r := x) (s := o) hx ho (he.trans ht.id)
    exact ht
  · exact Touch.refl x

theorem Still.touch (ho : o ∈ d.operations) (ht : Touch o o') :
    Still s rejects now d (d.putOperation o') :=
  ⟨Change.touch _ (forall₂_touch_put ho ht),rfl,rfl,rfl,rfl⟩

theorem touch_setOperationPhase {phase : OperationPhase} (hopen : o.isOpen = true)
    (hphase : allowedPhase o.operationType o.replacementTargetDocumentId.isSome phase = true) :
    Touch o (setOperationPhase now o phase) := by
  unfold setOperationPhase
  split
  · exact Touch.refl o
  · exact ⟨rfl,rfl,rfl,rfl,rfl,rfl,rfl,rfl,fun _ => rfl,
      fun hc => absurd (hopen.symm.trans hc) (by decide),Or.inr hphase⟩

theorem touch_bindRevision (hopen : o.isOpen = true) (htype : o.operationType = .preflight)
    (revisionId : Option Uuid) : Touch o {o with preparedRevisionId := revisionId} :=
  ⟨rfl,rfl,rfl,rfl,rfl,rfl,rfl,rfl,fun hne => absurd htype hne,
    fun hc => absurd (hopen.symm.trans hc) (by decide),Or.inl rfl⟩

theorem touch_recoverLease (now : Time) (o : WorkOperation) :
    Touch o (Worker.recoverLease now o) := by
  unfold Worker.recoverLease
  split
  · rename_i hr
    have hopen : o.isOpen = true := by simp [WorkOperation.isOpen, hr.1]
    exact ⟨rfl,rfl,rfl,rfl,rfl,rfl,rfl,hopen.symm,fun _ => rfl,
      fun hc => absurd (hopen.symm.trans hc) (by decide),Or.inl rfl⟩
  · exact Touch.refl o

theorem touch_renewLease (s : Settings) (now : Time) (p : Worker.Process) (o : WorkOperation) :
    Touch o (Worker.renewLease s now p o) := by
  unfold Worker.renewLease
  split
  · rename_i hr
    have hopen : o.isOpen = true := by simp [WorkOperation.isOpen, hr.1]
    exact ⟨rfl,rfl,rfl,rfl,rfl,rfl,rfl,rfl,fun _ => rfl,
      fun hc => absurd (hopen.symm.trans hc) (by decide),Or.inl rfl⟩
  · exact Touch.refl o

theorem recoverLeases_change (now : Time) (c : Catalog) :
    CatalogChange s strands rejects now c (Worker.recoverLeases now c) :=
  CatalogChange.leases _ _ (touch_recoverLease now)

theorem renewLeases_change (now : Time) (p : Worker.Process) (c : Catalog) :
    CatalogChange s strands rejects now c (Worker.renewLeases s now p c) :=
  CatalogChange.leases _ _ (touch_renewLease s now p)

/-- The operation that a claim starts to run. -/
theorem touch_claim {worker : Uuid} {started lease : Option Time} (hq : o.state = .queued) :
    Touch o {o with
      state := .running, workerId := some worker, startedAt := started,
      leaseExpiresAt := lease} := by
  have hopen : o.isOpen = true := by simp [WorkOperation.isOpen, hq]
  exact ⟨rfl,rfl,rfl,rfl,rfl,rfl,rfl,hopen.symm,fun _ => rfl,
    fun hc => absurd (hopen.symm.trans hc) (by decide),Or.inl rfl⟩

/-- What a claim finds and what it does to the catalog. -/
theorem claimNext_ok {p p' : Worker.Process} {claimed : Worker.ClaimedOperation}
    (hinv : CatalogInv s strands now c)
    (h : Worker.claimNext s now p c = .ok (some claimed,p',c')) :
    ∃ d o o', d ∈ c.documents ∧ o ∈ d.operations ∧ Worker.claimable p o = true ∧
      claimed = ⟨o.id,d.id,d.intake.collectionKey,o.operationType,Worker.lockedDocuments o⟩ ∧
      o' = {o with
        state := .running, workerId := some p.workerId,
        startedAt := some (o.startedAt.getD now), leaseExpiresAt := some (now + s.leaseSeconds)} ∧
      p' = ⟨p.workerId,claimed.lockedDocumentIds ++ p.busyDocuments,
        (o.id,now) :: p.claimTimes⟩ ∧ c' = c.put (d.putOperation o') := by
  unfold Worker.claimNext at h
  split at h
  · cases h
  · rename_i o hnext
    simp only [bind_eq_ok, orRaise_eq_ok, pure_eq_ok, Prod.mk.injEq, Option.some.injEq] at h
    obtain ⟨d,hd,rfl,rfl,rfl⟩ := h
    have hmem := List.argmin_mem hnext
    rw [List.mem_filter, Catalog.mem_operations] at hmem
    obtain ⟨⟨d₁,hd₁,ho⟩,hclaim⟩ := hmem
    have hdoc := ((hinv.documents d₁ hd₁).operations.valid o ho).document
    cases Table.eq_of_key_eq (Catalog.mem_of_document? hd) hd₁
      ((Catalog.id_of_document? hd).trans hdoc)
    exact ⟨d,o,_,hd₁,ho,hclaim,by rw [hdoc],rfl,rfl,rfl⟩

theorem claimNext_change {p p' : Worker.Process} {claimed : Worker.ClaimedOperation}
    (hinv : CatalogInv s strands now c)
    (h : Worker.claimNext s now p c = .ok (some claimed,p',c')) :
    CatalogChange s strands rejects now c c' := by
  obtain ⟨d,o,o',hd,ho,hclaim,-,rfl,-,rfl⟩ := claimNext_ok hinv h
  have hq : o.state = .queued := by
    simp only [Worker.claimable, Bool.and_eq_true, decide_eq_true_eq] at hclaim
    exact hclaim.1.1
  exact CatalogChange.still hd (Still.touch ho (touch_claim hq))

/-! ### Revisions -/

/-- A revision that is not sealed may be rewritten in place. -/
theorem Still.putRevision (h : DocumentInv s now d) {r r' : PreparedRevision}
    (hr : r ∈ d.preparedRevisions) (hid : r'.id = r.id)
    (hnumber : r'.revisionNumber = r.revisionNumber) (hcreated : r'.createdAt = r.createdAt)
    (hopen : r.status ≠ .sealed) (hvalid : RevisionValid s d.intake.collectionKey r') :
    Still s rejects now d (d.putRevision r') := by
  refine ⟨Change.revise _ ?_ ?_ ?_,rfl,rfl,rfl,rfl⟩
  · intro x hx hs
    refine Table.mem_put.2 (Or.inr ⟨hx,fun he => ?_⟩)
    cases Table.eq_of_key_eq hx hr (he.trans hid)
    exact hopen hs
  · intro x hx
    by_cases he : x.id = r'.id
    · exact ⟨r',Table.mem_put_self _ r',he.symm⟩
    · exact ⟨x,Table.mem_put.2 (Or.inr ⟨hx,he⟩),rfl⟩
  · have hfresh := (h.revisions.mono (Nat.le_succ now)).fresh
    exact {
      valid := Table.forall_mem_put h.revisions.valid hvalid
      fresh := Table.forall_mem_put hfresh (hcreated ▸ hfresh r hr)
      numbers := by
        intro x y hx hy he
        have hold : ∀ z, z ∈ d.preparedRevisions → z.id ≠ r'.id →
            z.revisionNumber ≠ r'.revisionNumber := by
          intro z hz hzid hzn
          exact hzid ((congrArg PreparedRevision.id
            (h.revisions.numbers z r hz hr (hzn.trans hnumber))).trans hid.symm)
        rcases Table.mem_put.1 hx with hx' | ⟨hx',hxid⟩ <;>
          rcases Table.mem_put.1 hy with hy' | ⟨hy',hyid⟩
        · rw [hx', hy']
        · exact absurd (he.symm.trans (congrArg _ hx')) (hold y hy' hyid)
        · exact absurd (he.trans (congrArg _ hy')) (hold x hx' hxid)
        · exact h.revisions.numbers x y hx' hy' he }

theorem beginPreparation_still (hinv : DocumentInv s now d) {identity : PreparationIdentity}
    {h : PreparationHandle} (hbegin : beginPreparation now identity d = .ok (h,d'))
    (htarget : ∃ definition, s.enabledCollection? d.intake.collectionKey = some definition ∧
      identity.revision = definition.identity) :
    Still s rejects now d d' ∧ d.state = .preflighting := by
  simp only [beginPreparation, bind_eq_ok, require_eq_ok, exists_const, pure_eq_ok,
    Prod.mk.injEq] at hbegin
  obtain ⟨hstate,-,rfl⟩ := hbegin
  generalize hr : newRevision now ((d.preparedRevisions.rows.map (·.revisionNumber)).foldr max 0
    + 1) identity.revision = r
  have hnew : ∀ x, x ∈ d.preparedRevisions → x.id ≠ r.id ∧ x.revisionNumber < r.revisionNumber := by
    intro x hx
    subst hr
    refine ⟨fun he => ?_,Nat.lt_succ_of_le (le_foldr_max (List.mem_map_of_mem hx))⟩
    have hlt := hinv.revisions.fresh x hx
    rw [(hinv.revisions.valid x hx).drawn] at he
    have : x.createdAt = now := congrArg Uuid.drawnAt he
    rw [this] at hlt
    exact lt_irrefl _ hlt
  have hvalid : RevisionValid s d.intake.collectionKey r := by
    subst hr
    exact {
      drawn := rfl
      number := Nat.le_add_left _ _
      target := htarget
      language := fun _ hl => by cases hl
      reasons := Nat.zero_le _
      failed := fun hf => by cases hf
      sound := fun _ => ⟨rfl,rfl⟩
      complete := fun hf => by cases hf }
  have hcreated : r.createdAt = now := by subst hr; rfl
  refine ⟨⟨Change.revise _ ?_ ?_ ?_,rfl,rfl,rfl,rfl⟩,hstate⟩
  · exact fun x hx _ => Table.mem_put.2 (Or.inr ⟨hx,(hnew x hx).1⟩)
  · exact fun x hx => ⟨x,Table.mem_put.2 (Or.inr ⟨hx,(hnew x hx).1⟩),rfl⟩
  · exact {
      valid := Table.forall_mem_put hinv.revisions.valid hvalid
      fresh := Table.forall_mem_put (hinv.revisions.mono (Nat.le_succ now)).fresh
        (hcreated ▸ Nat.lt_succ_self now)
      numbers := by
        intro x y hx hy he
        rcases Table.mem_put.1 hx with hx' | ⟨hx',-⟩ <;>
          rcases Table.mem_put.1 hy with hy' | ⟨hy',-⟩
        · rw [hx', hy']
        · exact absurd (he.symm.trans (congrArg _ hx')) (hnew y hy').2.ne
        · exact absurd (he.trans (congrArg _ hy')) (hnew x hx').2.ne
        · exact hinv.revisions.numbers x y hx' hy' he }

theorem loadStage_ok {h : PreparationHandle} {r : PreparedRevision}
    (hl : loadStage d h = .ok r) : r ∈ d.preparedRevisions ∧ r.status = .preparing ∧
      r.id = h.revisionId := by
  simp only [loadStage, loadPreparing, loadRevision, validateRevisionIdentity, bind_eq_ok,
    orRaise_eq_ok, require_eq_ok, exists_const, pure_eq_ok] at hl
  obtain ⟨x,⟨y,hy,hstatus,rfl⟩,⟨hid,-,-⟩,rfl⟩ := hl
  exact ⟨Table.mem_of_lookup hy,hstatus,hid⟩

/-- A stage fills a preparing revision, which stays one. -/
theorem Still.stage (hinv : DocumentInv s now d) {r : PreparedRevision}
    (hr : r ∈ d.preparedRevisions) (hstatus : r.status = .preparing)
    {r' : PreparedRevision} (hr' : r' = {r with
      content := r'.content, languageCode := r'.languageCode,
      nativeTextEligible := r'.nativeTextEligible, formatterComplete := r'.formatterComplete,
      vectorComplete := r'.vectorComplete, pageCount := r'.pageCount,
      chunkCount := r'.chunkCount, expectedPointCount := r'.expectedPointCount,
      extractionSha256 := r'.extractionSha256, markdownSha256 := r'.markdownSha256,
      vectorManifestSha256 := r'.vectorManifestSha256})
    (hlanguage : ∀ l, r'.languageCode = some l → 2 ≤ l.1.length) :
    Still s rejects now d (d.putRevision r') := by
  have hv := hinv.revisions.valid r hr
  have hstatus' : r'.status = .preparing := by rw [hr']; exact hstatus
  refine Still.putRevision hinv hr (by rw [hr']) (by rw [hr']) (by rw [hr'])
    (by rw [hstatus]; decide) ?_
  exact {
    drawn := by rw [hr']; exact hv.drawn
    number := by rw [hr']; exact hv.number
    target := by rw [hr']; exact hv.target
    language := hlanguage
    reasons := by rw [hr']; exact hv.reasons
    failed := fun hf => by rw [hstatus'] at hf; cases hf
    sound := by
      intro _
      rw [hr']
      exact hv.sound (by rw [hstatus]; decide)
    complete := fun hf => by rw [hstatus'] at hf; cases hf }

theorem recordExtraction_still (hinv : DocumentInv s now d) {h : PreparationHandle}
    {x : ExtractedDocument} {digest : Digest}
    (hrecord : recordExtraction enc h x d = .ok (digest,d')) : Still s rejects now d d' := by
  simp only [recordExtraction, bind_eq_ok, require_eq_ok, exists_const, pure_eq_ok,
    Prod.mk.injEq] at hrecord
  obtain ⟨-,-,r,hload,-,-,rfl⟩ := hrecord
  obtain ⟨hr,hstatus,-⟩ := loadStage_ok hload
  refine Still.stage hinv hr hstatus rfl ?_
  intro l hl
  cases hl
  decide

theorem recordFormatting_still (hinv : DocumentInv s now d) {h : PreparationHandle}
    {f : FormattedDocument} {digest : Digest}
    (hrecord : recordFormatting enc h f d = .ok (digest,d')) : Still s rejects now d d' := by
  simp only [recordFormatting, bind_eq_ok, require_eq_ok, exists_const, pure_eq_ok,
    Prod.mk.injEq] at hrecord
  obtain ⟨r,hload,-,-,-,-,-,rfl⟩ := hrecord
  obtain ⟨hr,hstatus,-⟩ := loadStage_ok hload
  exact Still.stage hinv hr hstatus rfl (hinv.revisions.valid r hr).language

theorem recordChunkVectors_still (hinv : DocumentInv s now d) {h : PreparationHandle}
    {b : ChunkVectorBundle} {digest : Digest}
    (hrecord : recordChunkVectors enc h b d = .ok (digest,d')) : Still s rejects now d d' := by
  simp only [recordChunkVectors, bind_eq_ok, require_eq_ok, exists_const, pure_eq_ok,
    Prod.mk.injEq] at hrecord
  obtain ⟨-,r,hload,-,-,-,-,rfl⟩ := hrecord
  obtain ⟨hr,hstatus,-⟩ := loadStage_ok hload
  exact Still.stage hinv hr hstatus rfl (hinv.revisions.valid r hr).language

theorem recordPreflightCandidates_still (hinv : DocumentInv s now d) {h : PreparationHandle}
    {xs : List CandidateInput} {ids : List Uuid}
    (hrecord : recordPreflightCandidates now h xs c d = .ok (ids,d')) : Still s rejects now d d' := by
  simp only [recordPreflightCandidates, bind_eq_ok, require_eq_ok, exists_const, pure_eq_ok,
    Prod.mk.injEq] at hrecord
  obtain ⟨-,-,r,hload,-,-,-,rows,-,-,rfl⟩ := hrecord
  obtain ⟨hr,hstatus,-⟩ := loadStage_ok hload
  exact Still.stage hinv hr hstatus rfl (hinv.revisions.valid r hr).language

theorem appendAdvisoryEvidence_still (hinv : DocumentInv s now d) {h : PreparationHandle}
    {evidence : List (Uuid × List EvidenceInput)} {u : Unit}
    (hrecord : appendAdvisoryEvidence h evidence c d = .ok (u,d')) : Still s rejects now d d' := by
  simp only [appendAdvisoryEvidence, bind_eq_ok, require_eq_ok, exists_const, pure_eq_ok,
    Prod.mk.injEq] at hrecord
  obtain ⟨r,hload,-,rows,-,-,rfl⟩ := hrecord
  obtain ⟨hr,hstatus,-⟩ := loadStage_ok hload
  exact Still.stage hinv hr hstatus rfl (hinv.revisions.valid r hr).language

theorem insertArtifact_still (hinv : DocumentInv s now d) {revisionId : Uuid}
    {a : RevisionArtifact} {u : Unit}
    (hinsert : Worker.insertArtifact revisionId a d = .ok (u,d')) : Still s rejects now d d' := by
  simp only [Worker.insertArtifact, bind_eq_ok, orRaise_eq_ok, require_eq_ok, exists_const,
    pure_eq_ok, Prod.mk.injEq] at hinsert
  obtain ⟨r,hlookup,hopen,-,rfl⟩ := hinsert
  have hr : r ∈ d.preparedRevisions := Table.mem_of_lookup hlookup
  exact Still.putRevision hinv hr rfl rfl rfl hopen
    {hinv.revisions.valid r hr with complete := fun hs => absurd hs hopen}

theorem failPreparation_still (hinv : DocumentInv s now d) {revisionId : Uuid}
    {code : FailureCode} {message : Text 500} {u : Unit}
    (hfail : failPreparation revisionId code message d = .ok (u,d')) : Still s rejects now d d' := by
  simp only [failPreparation, loadRevision, bind_eq_ok, orRaise_eq_ok, require_eq_ok,
    exists_const, ite_eq_ok, pure_eq_ok, Prod.mk.injEq] at hfail
  obtain ⟨r,hlookup,hopen,⟨-,-,rfl⟩ | ⟨-,-,rfl⟩⟩ := hfail
  · exact ⟨Change.index _,rfl,rfl,rfl,rfl⟩
  · have hr : r ∈ d.preparedRevisions := Table.mem_of_lookup hlookup
    exact Still.putRevision hinv hr rfl rfl rfl hopen
      {hinv.revisions.valid r hr with
        failed := fun _ => ⟨rfl,rfl⟩
        sound := fun hne => absurd rfl hne
        complete := fun hs => by cases hs}

/-- The reasons that a preflight can leave behind. -/
def advisoryReasons : List FailureCode :=
  [failureCode "advisory_candidate_budget",failureCode "advisory_incomplete"]

/-- The sealed form of a preparing revision. -/
structure Seals (x : PreflightCompleteness) (r r' : PreparedRevision) : Prop where
  id : r'.id = r.id
  number : r'.revisionNumber = r.revisionNumber
  created : r'.createdAt = r.createdAt
  identity : r'.identity = r.identity
  language : r'.languageCode = r.languageCode
  content : r'.content = r.content
  status : r'.status = .sealed
  summary : sealedSummaryValid r' = true
  reasons : r'.incompleteReasons =
    x.incompleteReasons.dedup.insertionSort fun a b => a.1 ≤ b.1
  code : r'.failureCode = none
  message : r'.failureMessage = none

theorem sealPreparedRevision_ok {h : PreparationHandle} {x : PreflightCompleteness}
    {prepared : SealedPreparation}
    (hseal : sealPreparedRevision enc now h x d = .ok (prepared,d')) :
    ∃ r r', r ∈ d.preparedRevisions ∧ r.status = .preparing ∧ r.id = h.revisionId ∧
      Seals x r r' ∧ d' = d.putRevision r' ∧ prepared.revisionId = r.id := by
  simp only [sealPreparedRevision, validatePersistedPages, validateChunkRows, evidenceManifest,
    bind_eq_ok, require_eq_ok, exists_const, Prod.exists, pure_eq_ok, Prod.mk.injEq] at hseal
  obtain ⟨r,hload,-,-,-,-,⟨-,⟨hpages,-⟩,-,-,rfl,rfl⟩,-,-,⟨-,-,-,⟨hcount,hpoints⟩,-,-⟩,-,-,
    ⟨-,-,-,-,rfl,rfl⟩,rfl,rfl⟩ := hseal
  obtain ⟨hr,hstatus,hid⟩ := loadStage_ok hload
  refine ⟨r,_,hr,hstatus,hid,?_,rfl,rfl⟩
  refine ⟨rfl,rfl,rfl,rfl,rfl,rfl,rfl,?_,rfl,rfl,rfl⟩
  simp [sealedSummaryValid, hpages, hcount, hpoints]

theorem sealPreparedRevision_still (hinv : DocumentInv s now d) {h : PreparationHandle}
    {x : PreflightCompleteness} {prepared : SealedPreparation}
    (hseal : sealPreparedRevision enc now h x d = .ok (prepared,d'))
    (hreasons : x.incompleteReasons ⊆ advisoryReasons) : Still s rejects now d d' := by
  obtain ⟨r,r',hr,hstatus,-,hs,rfl,-⟩ := sealPreparedRevision_ok hseal
  have hv := hinv.revisions.valid r hr
  refine Still.putRevision hinv hr hs.id hs.number hs.created (by rw [hstatus]; decide) {
    drawn := by rw [hs.id, hs.created]; exact hv.drawn
    number := by rw [hs.number]; exact hv.number
    target := by rw [hs.identity]; exact hv.target
    language := by rw [hs.language]; exact hv.language
    reasons := ?_
    failed := fun hf => by rw [hs.status] at hf; cases hf
    sound := fun _ => ⟨hs.code,hs.message⟩
    complete := fun _ => hs.summary }
  rw [hs.reasons, List.length_insertionSort]
  have hsub : x.incompleteReasons.dedup ⊆ advisoryReasons :=
    fun a ha => hreasons (List.mem_dedup.1 ha)
  have := (List.subperm_of_subset (List.nodup_dedup _) hsub).length_le
  exact this.trans (by decide)

/-! ### The index outbox -/

theorem beginOutbox_still {k : Worker.OutboxKey} {n : ℕ} {u : Unit}
    (h : Worker.beginOutbox k n d = .ok (u,d')) : Still s rejects now d d' := by
  simp only [Worker.beginOutbox, bind_eq_ok, require_eq_ok, exists_const] at h
  obtain ⟨-,h⟩ := h
  split at h
  · simp only [pure_eq_ok, Prod.mk.injEq] at h
    obtain ⟨-,rfl⟩ := h
    exact ⟨Change.index _,rfl,rfl,rfl,rfl⟩
  · simp only [bind_eq_ok, require_eq_ok, exists_const, pure_eq_ok, Prod.mk.injEq] at h
    obtain ⟨-,-,rfl⟩ := h
    exact ⟨Change.index _,rfl,rfl,rfl,rfl⟩

theorem completeOutbox_still {k : Worker.OutboxKey} {u : Unit}
    (h : Worker.completeOutbox now k d = .ok (u,d')) : Still s rejects now d d' := by
  simp only [Worker.completeOutbox, bind_eq_ok, orRaise_eq_ok, require_eq_ok, exists_const,
    pure_eq_ok, Prod.mk.injEq] at h
  obtain ⟨e,-,-,-,rfl⟩ := h
  exact ⟨Change.index _,rfl,rfl,rfl,rfl⟩

end Lifecycle
end PdfBridge
