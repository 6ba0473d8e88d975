import PdfBridge.Lifecycle.Scenario

/-! What is published has been approved, and what was approved stays as it was sealed until the
content of its document is purged. -/
namespace PdfBridge
namespace Lifecycle
open Worker Api Intake

variable {s : Settings} {enc : Encoding} {rejects : FailureCode → Prop} {w w' : World}
  {now : Time} {d d' : Document} {r : PreparedRevision}

/-! ### Approval -/

/-- A complete revision without candidates. -/
structure ClearRevision (r : PreparedRevision) : Prop where
  clear : r.clearForPublication = true
  formatter : r.formatterComplete = true
  vectors : r.vectorComplete = true
  discovery : r.candidateDiscoveryComplete = true
  advisory : r.advisoryComplete = true
  reasons : r.incompleteReasons = []
  candidates : r.content.candidates = []

/-- The one decision about a revision keeps or replaces with its manifest. -/
structure DecidedBy (d : Document) (r : PreparedRevision) (x : Decision) : Prop where
  only : d.decisions.filter (·.preparedRevisionId = r.id) = [x]
  action : x.action = .keep ∨ x.action = .replace
  manifest : r.manifestSha256 = some x.preparedManifestSha256

/-- A sealed revision of the document that was clear or decided, with the target to replace. -/
structure ApprovedRevision (d : Document) (r : PreparedRevision) (target : Option Uuid) :
    Prop where
  revision : r ∈ d.preparedRevisions
  sealed : r.status = .sealed
  approval : (ClearRevision r ∧ target = none) ∨
    ∃ x, DecidedBy d r x ∧ target = x.targetDocumentId

/-- Every publication record, and every attempt to publish, is about one approved revision. -/
structure PublishesApproved (d : Document) : Prop where
  records : ∀ p ∈ d.publications.rows, ∃ r target, ApprovedRevision d r target ∧
    r.id = p.preparedRevisionId ∧
    ∀ o ∈ d.operations.rows, o.operationType = .publish →
      o.preparedRevisionId = some r.id ∧ o.replacementTargetDocumentId = target
  attempts : ∀ o ∈ d.operations.rows, o.operationType = .publish →
    ∃ p ∈ d.publications.rows, o.preparedRevisionId = some p.preparedRevisionId
  decisions : ∀ id, (d.decisions.filter (·.preparedRevisionId = id)).length ≤ 1

theorem clearRevision_of_publishable (h : isPublishable r = true) : ClearRevision r := by
  simp only [isPublishable, Bool.and_eq_true, List.isEmpty_iff] at h
  obtain ⟨⟨⟨⟨⟨⟨⟨-,hc⟩,hf⟩,hv⟩,hd⟩,ha⟩,hr⟩,hx⟩ := h
  exact ⟨hc,hf,hv,hd,ha,hr,hx⟩

theorem PublicationsInv.approvedRevision (h : PublicationsInv d) {target : Option Uuid}
    (ha : Approved d r target) : ApprovedRevision d r target := by
  obtain ⟨hr,hsealed,⟨hclear,ht⟩ | ⟨x,hx,hid,hmanifest,haction⟩⟩ := ha
  · exact ⟨hr,hsealed,Or.inl ⟨clearRevision_of_publishable hclear,ht⟩⟩
  · refine ⟨hr,hsealed,Or.inr ⟨x,⟨?_,?_,hmanifest⟩,?_⟩⟩
    · rw [hx]
      simp [hid]
    · exact haction.imp And.left And.left
    · rcases haction with ⟨hkeep,ht⟩ | ⟨-,ht,-⟩
      · have hnone : x.targetDocumentId.isSome ≠ true := fun hc => by
          have := (h.decisionTarget x (by rw [hx]; exact List.mem_singleton_self x)).2 hc
          rw [hkeep] at this
          cases this
        rw [ht, Option.not_isSome_iff_eq_none.1 hnone]
      · exact ht

theorem PublicationsInv.publishesApproved (h : PublicationsInv d) : PublishesApproved d where
  records := by
    intro p hp
    obtain ⟨r,target,ha,hid,-,-,hops⟩ := h.bound p hp
    exact ⟨r,target,h.approvedRevision ha,hid,hops⟩
  attempts := by
    intro o ho htype
    obtain ⟨p,hp⟩ := List.exists_mem_of_ne_nil _ (h.attempts o ho htype)
    obtain ⟨r,target,-,hid,-,-,hops⟩ := h.bound p hp
    exact ⟨p,hp,by rw [(hops o ho htype).1, hid]⟩
  decisions := fun id => (List.length_filter_le _ _).trans h.singleDecision

/-! ### Sealed content -/

/-- The content of the document has been purged. -/
def contentPurged (d : Document) : Bool := d.deletionProgress.any (·.storagePurgedAt.isSome)

theorem contentPurged_of_live (h : DocumentInv s now d) (hs : deletionState d.state = false) :
    contentPurged d = false := by
  rw [contentPurged, (h.deletion.live hs).1]
  rfl

theorem contentPurged_failProgress (code : FailureCode) (d : Document) :
    contentPurged (failProgress code d) = contentPurged d := by
  unfold contentPurged failProgress
  cases d.deletionProgress <;> rfl

/-- The rows that a failure leaves alone. -/
theorem failDocument_content (o : WorkOperation) (code : FailureCode) (message : Text 500)
    (retryable : Bool) (d : Document) :
    contentPurged (failDocument o code message retryable d) = contentPurged d ∧
      (failDocument o code message retryable d).preparedRevisions = d.preparedRevisions := by
  unfold failDocument
  cases o.operationType with
  | preflight => exact ⟨rfl,rfl⟩
  | publish =>
    simp only [failPublication]
    cases o.preparedRevisionId.bind d.publicationForRevision with
    | none => exact ⟨rfl,rfl⟩
    | some p =>
      simp only
      split <;> exact ⟨rfl,rfl⟩
  | delete => exact ⟨contentPurged_failProgress code d,rfl⟩

/-- A purge is never undone. -/
theorem Change.purged_kept (hc : Change s rejects now d d') (h : DocumentInv s now d)
    (hp : contentPurged d = true) : contentPurged d' = true := by
  have live : deletionState d.state = false → contentPurged d' = true := fun hs => by
    rw [contentPurged_of_live h hs] at hp
    cases hp
  have mapped : ∀ {p : DeletionProgress}, d.deletionProgress = some p →
      p.storagePurgedAt.isSome = true := fun hq => by
    rw [contentPurged, hq] at hp
    exact hp
  cases hc with
  | reject hstate | cancel hstate | yield_ hstate => exact live (by rw [hstate]; rfl)
  | delete hstate => exact live (by rcases hstate with hs | hs | hs | hs <;> rw [hs] <;> rfl)
  | purge => rfl
  | progress hq hprogress =>
    show Option.isSome _ = true
    rw [hprogress.purged]
    exact mapped hq
  | fail ho hopen hs hfailed code message outbox =>
    exact (failDocument_content _ code message _ _).1.trans hp
  | failYielded hstate howner code => exact (contentPurged_failProgress code _).trans hp
  | resumeYielded hstate howner hq =>
    have hpurged := mapped hq
    exact hpurged
  | retryDelete hstate howner ho hpriority hq =>
    have hpurged := mapped hq
    exact hpurged
  | bury hq hpurged => exact hpurged
  | buryOwn hq hpurged => exact hpurged
  | _ => exact hp

/-- Until the purge, every transition keeps the sealed revisions with all their rows. -/
theorem Change.sealed_kept (hc : Change s rejects now d d') (hp : contentPurged d' = false)
    (hr : r ∈ d.preparedRevisions) (hsealed : r.status = .sealed) :
    r ∈ d'.preparedRevisions := by
  cases hc with
  | revise revisions hkept => exact hkept r hr hsealed
  | purge => cases hp
  | fail ho hopen hs hfailed code message outbox =>
    show r ∈ (failDocument _ code message _ _).preparedRevisions
    rw [(failDocument_content _ code message _ _).2]
    exact hr
  | _ => exact hr

/-- Nothing is published without approval, and what was sealed stays until the purge. -/
theorem published_as_approved (h : Reachable s enc w) (hd : d ∈ w.shared.catalog.documents) :
    PublishesApproved d ∧
    ∀ w', Steps s enc (fun _ _ => True) w w' → ∀ d', d' ∈ w'.shared.catalog.documents →
      d'.id = d.id → contentPurged d' = false →
      ∀ r, r ∈ d.preparedRevisions → r.status = .sealed → r ∈ d'.preparedRevisions := by
  refine ⟨(h.catalog.documents d hd).publications.publishesApproved,?_⟩
  intro w' hrun d' hd' hid hp r hr hsealed
  have hstep : ∀ now x x', DocumentInv s now x →
      (contentPurged x = false → r ∈ x.preparedRevisions) →
      Change s (fun _ => True) now x x' → contentPurged x' = false →
      r ∈ x'.preparedRevisions := by
    intro now x x' hinv hx hc hp'
    refine hc.sealed_kept hp' (hx ?_) hsealed
    by_contra hne
    rw [Bool.not_eq_false] at hne
    rw [hc.purged_kept hinv hne] at hp'
    cases hp'
  obtain ⟨-,d₁,hd₁,hid₁,hkept⟩ :=
    hrun.document (I := fun x => contentPurged x = false → r ∈ x.preparedRevisions) h hd
      (fun _ => hr) fun w e _ x x' _ hinv => hstep w.shared.now x x' hinv
  cases Table.eq_of_key_eq hd₁ hd' (hid₁.trans hid.symm)
  exact hkept hp

/-- A replacement publishes the revision that the operator decided on. -/
theorem published_as_approved_replacing : ∃ d : Document,
    d.publications.rows ≠ [] ∧ d.state = .publishing ∧ PublishesApproved d := by
  obtain ⟨w,d,hw,hd,ht⟩ := play_document booksSettings plainEncoding (fun _ _ => True) replacing
    (fun d => d.publications.rows ≠ [] ∧ d.state = .publishing) (fun _ _ _ => trivial)
    (fun _ _ _ => trivial) (by decide +kernel)
  obtain ⟨hp,hs⟩ := of_decide_eq_true ht
  exact ⟨d,hp,hs,(published_as_approved hw hd).1⟩

end Lifecycle
end PdfBridge
