import PdfBridge.Lifecycle.Scenario
import PdfBridge.Services.Pagination

/-! Which documents can be shown: the serializers accept every reachable document except one that
carries the reason of its rejection without a message. -/
namespace PdfBridge
namespace Lifecycle
open Api Intake

variable {s : Settings} {enc : Encoding} {rejects : FailureCode → Prop} {strands : Prop}
  {w : World} {c : Catalog} {now : Time} {d d' : Document} {o : WorkOperation}

/-! ### Failures -/

theorem safeFailure_ok {code : Option FailureCode} {message fallback : Option (Text 500)}
    {retryable required : Bool} {phase : Option OperationPhase}
    (hnone : code = none → required = false ∧ message = none)
    (hsome : code.isSome = true → (message.or fallback).isSome = true) :
    ∃ x, safeFailure code message retryable phase required fallback = .ok x := by
  cases code with
  | none =>
    obtain ⟨rfl,rfl⟩ := hnone rfl
    exact ⟨none,rfl⟩
  | some code =>
    obtain ⟨m,hm⟩ := Option.isSome_iff_exists.1 (hsome rfl)
    exact ⟨some ⟨code,m,retryable,phase⟩,by simp only [safeFailure, hm]⟩

/-- A document that carries the reason of its rejection outside of a failed state. -/
def CarriesReason (d : Document) : Prop :=
  d.terminalDisposition = some .rejected ∧ d.failureCode.isSome = true ∧ d.state ≠ .deleteFailed

theorem DocumentInv.intake_valid (h : DocumentInv s now d) :
    d.intake.contentType = "application/pdf" ∧ 1 ≤ d.intake.sizeBytes :=
  ⟨h.intake.contentType,h.intake.size⟩

/-- A failure code stands without a message only for the reason of a rejection. -/
theorem DocumentInv.message_of_code (h : DocumentInv s now d) (hc : ¬ CarriesReason d)
    (hcode : d.failureCode.isSome = true) : d.failureMessage.isSome = true := by
  by_cases hfailed : failedState d.state = true
  · exact (h.failure.failed hfailed).2
  · rw [Bool.not_eq_true] at hfailed
    refine absurd ⟨h.failure.code hfailed hcode,hcode,fun hs => ?_⟩ hc
    rw [hs] at hfailed
    cases hfailed

theorem DocumentInv.no_message (h : DocumentInv s now d) (hcode : d.failureCode = none) :
    failedState d.state = false ∧ d.failureMessage = none := by
  have hfailed : failedState d.state = false := by
    by_contra hne
    rw [Bool.not_eq_false] at hne
    have := (h.failure.failed hne).1
    rw [hcode] at this
    cases this
  exact ⟨hfailed,h.failure.message hfailed⟩

theorem DocumentInv.documentSummary_ok (h : DocumentInv s now d) (hc : ¬ CarriesReason d)
    (o : Option WorkOperation) : ∃ x, documentSummary d o = .ok x := by
  obtain ⟨f,hf⟩ : ∃ f, safeFailure d.failureCode d.failureMessage d.failureRetryable
      (o.map (·.phase)) (failedState d.state) none = .ok f :=
    safeFailure_ok h.no_message fun hcode => by
      rw [Option.or_none]
      exact h.message_of_code hc hcode
  simp only [documentSummary, bind_eq_ok, require_eq_ok, exists_const, pure_eq_ok]
  exact ⟨_,f,hf,h.intake_valid,rfl⟩

/-- The reason of a rejection cannot be shown without a message. -/
theorem DocumentInv.documentSummary_error (h : DocumentInv s now d) (hc : CarriesReason d)
    (o : Option WorkOperation) : ¬ ∃ x, documentSummary d o = .ok x := by
  obtain ⟨hdisposition,hcode,hstate⟩ := hc
  have hfailed : failedState d.state = false := by
    obtain ⟨p,hp⟩ : ∃ p, d.deletionProgress = some p := by
      by_contra hne
      have hnone : d.deletionProgress = none := by
        cases hd : d.deletionProgress with
        | none => rfl
        | some p => exact absurd ⟨p,hd⟩ hne
      have hlive := h.deletion
      unfold DeletionInv at hlive
      rw [hnone] at hlive
      rw [hlive.disposition] at hdisposition
      cases hdisposition
    rcases (h.deletion.of_some hp).state with hs | hs | hs
    · rw [hs]; rfl
    · exact absurd hs hstate
    · rw [hs]
      cases p.terminalDisposition <;> rfl
  obtain ⟨code,hcode⟩ := Option.isSome_iff_exists.1 hcode
  rintro ⟨x,hx⟩
  simp only [documentSummary, bind_eq_ok] at hx
  obtain ⟨f,hf,-⟩ := hx
  rw [hcode, h.failure.message hfailed] at hf
  cases hf

/-! ### Details -/

theorem mapM_some_ok {α β : Type} {x : Option α} {f : α → Outcome β}
    (h : ∀ a, x = some a → ∃ b, f a = .ok b) : ∃ y, x.mapM f = .ok y := by
  cases x with
  | none => exact ⟨none,rfl⟩
  | some a =>
    obtain ⟨b,hb⟩ := h a rfl
    refine ⟨some b,?_⟩
    simp only [Option.mapM_some, hb]
    rfl

theorem mapM_list_ok {α β : Type} {xs : List α} {f : α → Outcome β}
    (h : ∀ a ∈ xs, ∃ b, f a = .ok b) : ∃ ys, xs.mapM f = .ok ys := by
  induction xs with
  | nil => exact ⟨[],rfl⟩
  | cons a xs ih =>
    obtain ⟨b,hb⟩ := h a List.mem_cons_self
    obtain ⟨ys,hys⟩ := ih fun x hx => h x (List.mem_cons_of_mem _ hx)
    refine ⟨b :: ys,?_⟩
    rw [List.mapM_cons, hb, hys]
    rfl

theorem OperationValid.summary_ok {id : Uuid} (h : OperationValid id o) :
    ∃ x, operationSummary o = .ok x := by
  obtain ⟨priority,-,hp⟩ := Option.map_eq_some_iff.1 h.priority
  have hname : priorityOfValue? o.priority = some priority := by
    rw [← hp]
    cases priority <;> rfl
  simp only [operationSummary, bind_eq_ok, orRaise_eq_ok, require_eq_ok, exists_const, pure_eq_ok]
  exact ⟨_,priority,hname,h.attempt,rfl⟩

theorem RevisionValid.summary_ok {r : PreparedRevision} {key : CollectionKey}
    (h : RevisionValid s key r) (d : Document) (o : Option WorkOperation) :
    ∃ x, preparedRevisionSummary r d o = .ok x := by
  obtain ⟨f,hf⟩ : ∃ f, safeFailure r.failureCode r.failureMessage d.failureRetryable
      (o.map (·.phase)) (decide (r.status = .failed)) none = .ok f := by
    refine safeFailure_ok (fun hcode => ?_) fun hcode => ?_
    · have hsound : r.status ≠ .failed := fun hs => by
        have := (h.failed hs).1
        rw [hcode] at this
        cases this
      exact ⟨decide_eq_false hsound,(h.sound hsound).2⟩
    · rw [Option.or_none]
      by_cases hs : r.status = .failed
      · exact (h.failed hs).2
      · rw [(h.sound hs).1] at hcode
        cases hcode
  simp only [preparedRevisionSummary, bind_eq_ok, require_eq_ok, exists_const, pure_eq_ok]
  refine ⟨_,f,hf,⟨h.number,?_,h.reasons⟩,h.complete,rfl⟩
  cases hl : r.languageCode with
  | none => rfl
  | some l => exact decide_eq_true (h.language l hl)

theorem PublicationsInv.summary_ok (h : PublicationsInv d) {p : PublicationRecord}
    (hp : p ∈ d.publications.rows) : ∃ x, publicationSummary p d = .ok x := by
  obtain ⟨f,hf⟩ : ∃ f, safeFailure p.failureCode none d.failureRetryable
      (some .verifyActivePoints) (decide (p.status = .failed))
      (some (text "Publication did not reach verified completeness.")) = .ok f := by
    refine safeFailure_ok (fun hcode => ⟨decide_eq_false fun hs => ?_,rfl⟩) fun _ => rfl
    have := h.failure p hp hs
    rw [hcode] at this
    cases this
  simp only [publicationSummary, bind_eq_ok, require_eq_ok, exists_const, pure_eq_ok]
  exact ⟨_,f,hf,h.proof p hp,rfl⟩

theorem DocumentInv.deletionSummary_ok (h : DocumentInv s now d) {p : DeletionProgress}
    (hp : d.deletionProgress = some p) : ∃ x, deletionSummary p d = .ok x := by
  have pinv := h.deletion.of_some hp
  obtain ⟨f,hf⟩ : ∃ f, safeFailure (p.failureCode.or d.failureCode) d.failureMessage
      d.failureRetryable (some (.deletion p.phase)) (Decidable.decide (d.state = .deleteFailed))
      (some (text "Verified document deletion did not complete.")) = .ok f := by
    refine safeFailure_ok (fun hcode => ?_) fun _ => ?_
    · obtain ⟨hfailed,hmessage⟩ := h.no_message (Option.or_eq_none_iff.1 hcode).2
      refine ⟨decide_eq_false fun hs => ?_,hmessage⟩
      rw [hs] at hfailed
      cases hfailed
    · cases d.failureMessage <;> rfl
  obtain ⟨definition,hdef,hactive⟩ := pinv.active
  simp only [deletionSummary, bind_eq_ok, require_eq_ok, exists_const, pure_eq_ok]
  refine ⟨_,f,hf,?_,rfl⟩
  rw [hactive, pinv.screening]
  exact s.name_ne_screening (Settings.enabledCollection?_mem hdef)

theorem IntakeInv.source_ok (h : IntakeInv s d.intake) : ∃ x, sourceMetadata d = .ok x := by
  obtain ⟨scannedAt,hscanned⟩ := Option.isSome_iff_exists.1 h.scanned
  obtain ⟨engine,hengine⟩ := Option.isSome_iff_exists.1 h.engine
  simp only [sourceMetadata, bind_eq_ok, require_eq_ok, orRaise_eq_ok, exists_const, pure_eq_ok]
  exact ⟨_,h.clean,scannedAt,hscanned,engine,hengine,⟨h.contentType,h.size⟩,rfl⟩

/-! ### The replacement of a document -/

theorem isSome_of_bind {α β : Type} {x : Option α} {f : α → Option β}
    (h : (x.bind f).isSome = true) : x.isSome = true := by
  cases x with
  | none => cases h
  | some a => rfl

theorem decisionOf_mem {id : Uuid} {x : Decision} (h : d.decisionOf id = some x) :
    x ∈ d.decisions := List.mem_of_find?_eq_some h

theorem decisionSummary_ok {x : Decision}
    (h : x.action = .replace ↔ x.targetDocumentId.isSome = true) :
    ∃ y, decisionSummary x = .ok y := by
  simp only [decisionSummary, bind_eq_ok, require_eq_ok, exists_const, pure_eq_ok]
  exact ⟨x,h,rfl⟩

/-- The linked documents of a replacement and its operation are all there. -/
theorem CatalogInv.summarizeReplacement_ok (h : CatalogInv s strands now c) {i t : Document}
    (hi : i ∈ c.documents) (ht : t ∈ c.documents) (hr : t.replacedByDocumentId = some i.id)
    {x : Decision} (ha : x.action = .replace) (htarget : x.targetDocumentId = some t.id) :
    ∃ y, summarizeReplacement x t i = .ok y := by
  have howns := h.owns hi ht hr
  obtain ⟨o₁,ho₁,ht₁⟩ := howns.targets
  obtain ⟨o,ho⟩ : ∃ o, replacementOperation i t = some o := by
    cases hl : replacementOperation i t with
    | none =>
      have hnil := latestBy_eq_none.1 hl
      have hmem : o₁ ∈ i.operations.rows.filter fun o =>
          o.replacementTargetDocumentId = some t.id :=
        List.mem_filter.2 ⟨ho₁,by simpa using ht₁⟩
      rw [hnil] at hmem
      cases hmem
    | some o => exact ⟨o,rfl⟩
  have hot := (List.mem_filter.1 (latestBy_mem ho)).2
  simp only [summarizeReplacement, replacementSummary, bind_eq_ok, require_eq_ok, orRaise_eq_ok,
    exists_const, pure_eq_ok]
  exact ⟨_,o,ho,⟨ha,htarget,hr,howns.collection.symm⟩,of_decide_eq_true hot,rfl⟩

theorem CatalogInv.documentReplacement_ok (h : CatalogInv s strands now c)
    (hd : d ∈ c.documents) {decision : Option Decision}
    (hdecision : ∀ x, decision = some x → x ∈ d.decisions) :
    ∃ y, documentReplacement c d decision = .ok y := by
  have shown : ∀ {x : Outcome ReplacementSummary}, (∃ y, x = .ok y) →
      ∃ y, some <$> x = .ok y := by
    rintro x ⟨y,rfl⟩
    exact ⟨some y,rfl⟩
  unfold documentReplacement
  split
  · rename_i x hx
    obtain ⟨hx,ha⟩ := Option.filter_eq_some_iff.1 hx
    have ha := of_decide_eq_true ha
    have hmem := hdecision x hx
    obtain ⟨id,hid⟩ := Option.isSome_iff_exists.1
      (((h.documents d hd).publications.decisionTarget x hmem).1 ha)
    obtain ⟨t,ht,rfl,hr⟩ := h.link.replaced d hd id (h.link.chosen d hd id ⟨x,hmem,ha,hid⟩)
    obtain ⟨y,hy⟩ := shown (h.summarizeReplacement_ok hd ht hr ha hid)
    refine ⟨y,?_⟩
    simp only [bind_eq_ok, orRaise_eq_ok]
    exact ⟨t.id,hid,t,Catalog.document?_of_mem ht,hy⟩
  · rename_i owner _ howner
    obtain ⟨i,hi,rfl,howns⟩ := h.link.owned d hd owner howner
    obtain ⟨x₁,hx₁,ha₁,ht₁⟩ := howns.chosen
    obtain ⟨x,hx⟩ : ∃ x, (i.decisions.find? fun x =>
        x.action = .replace && x.targetDocumentId = some d.id) = some x := by
      rw [← Option.isSome_iff_exists, List.find?_isSome]
      exact ⟨x₁,hx₁,by simp [ha₁, ht₁]⟩
    have hsome := List.find?_some hx
    rw [Bool.and_eq_true, decide_eq_true_eq, decide_eq_true_eq] at hsome
    obtain ⟨y,hy⟩ := shown (h.summarizeReplacement_ok hi hd howner hsome.1 hsome.2)
    refine ⟨y,?_⟩
    simp only [bind_eq_ok, orRaise_eq_ok]
    exact ⟨i,Catalog.document?_of_mem hi,x,hx,hy⟩
  · exact ⟨none,rfl⟩

theorem CatalogInv.currentOperation_ok (h : CatalogInv s strands now c) (hd : d ∈ c.documents)
    (ho : currentOperation c d = some o) : ∃ x, operationSummary o = .ok x := by
  rcases List.mem_append.1 (latestBy_mem ho) with hown | hother
  · exact ((h.documents d hd).operations.valid o hown).summary_ok
  · have hmem := latestBy_mem (Option.mem_toList.1 hother)
    obtain ⟨i,hi,hoi⟩ := Catalog.mem_operations.1 (List.mem_of_mem_filter hmem)
    exact ((h.documents i hi).operations.valid o hoi).summary_ok

theorem CatalogInv.getDocument_ok (h : CatalogInv s strands now c) (hd : d ∈ c.documents)
    (hc : ¬ CarriesReason d) : ∃ x, getDocument c d.id = .ok x := by
  have dinv := h.documents d hd
  have hpublication : ∀ p, (latestSealedRevision d).bind
      (fun r => d.publicationForRevision r.id) = some p → p ∈ d.publications.rows := by
    intro p hp
    obtain ⟨r,-,hp⟩ := Option.bind_eq_some_iff.1 hp
    exact List.mem_of_find?_eq_some hp
  have hdecision : ∀ x, (latestSealedRevision d).bind (fun r => d.decisionOf r.id) = some x →
      x ∈ d.decisions := by
    intro x hx
    obtain ⟨r,-,hx⟩ := Option.bind_eq_some_iff.1 hx
    exact decisionOf_mem hx
  obtain ⟨replacement,hreplacement⟩ := h.documentReplacement_ok hd hdecision
  obtain ⟨summary,hsummary⟩ := dinv.documentSummary_ok hc (currentOperation c d)
  obtain ⟨source,hsource⟩ := dinv.intake.source_ok
  obtain ⟨operation,hoperation⟩ := mapM_some_ok fun o ho => h.currentOperation_ok hd ho
  obtain ⟨revision,hrevision⟩ := mapM_some_ok fun r hr =>
    (dinv.revisions.valid r (latestSealedRevision_mem hr)).summary_ok d (currentOperation c d)
  obtain ⟨publication,hpub⟩ := mapM_some_ok fun p hp =>
    dinv.publications.summary_ok (hpublication p hp)
  obtain ⟨deletion,hdeletion⟩ := mapM_some_ok fun p hp => dinv.deletionSummary_ok hp
  obtain ⟨decision,hdec⟩ := mapM_some_ok fun x hx =>
    decisionSummary_ok (dinv.publications.decisionTarget x (hdecision x hx))
  simp only [getDocument, documentAggregate, getDocumentForUpdate, documentDetail, bind_eq_ok,
    orRaise_eq_ok, require_eq_ok, exists_const, pure_eq_ok]
  exact ⟨_,_,⟨d,Catalog.document?_of_mem hd,rfl⟩,replacement,hreplacement,isSome_of_bind,
    isSome_of_bind,summary,hsummary,source,hsource,operation,hoperation,revision,hrevision,
    publication,hpub,deletion,hdeletion,decision,hdec,rfl⟩

/-! ### The catalog views -/

/-- Both views of a document succeed, whatever operation the summary is given. -/
structure Shown (c : Catalog) (d : Document) : Prop where
  summary : ∀ o, ∃ x, documentSummary d o = .ok x
  detail : ∃ x, getDocument c d.id = .ok x

/-- Every document and every page of every collection can be shown. -/
structure AllShown (c : Catalog) : Prop where
  documents : ∀ d, d ∈ c.documents → Shown c d
  pages : ∀ texts key state limit cursor page,
    Listing.listDocuments texts key state limit c cursor = .ok page →
      ∃ xs, documentItems page.items = .ok xs

theorem CatalogInv.allShown_iff (h : CatalogInv s strands now c) :
    AllShown c ↔ ∀ d, d ∈ c.documents → ¬ CarriesReason d := by
  constructor
  · intro hshown d hd hc
    exact (h.documents d hd).documentSummary_error hc none ((hshown.documents d hd).summary none)
  · intro hc
    have hsummary : ∀ d, d ∈ c.documents → ∀ o, ∃ x, documentSummary d o = .ok x :=
      fun d hd => (h.documents d hd).documentSummary_ok (hc d hd)
    refine ⟨fun d hd => ⟨hsummary d hd,h.getDocument_ok hd (hc d hd)⟩,?_⟩
    intro texts key state limit cursor page hpage
    exact mapM_list_ok fun d hd => hsummary d (Listing.listDocuments_items hpage hd) none

/-! ### Terminal rejections -/

theorem failDocument_disposition (o : WorkOperation) (code : FailureCode) (message : Text 500)
    (retryable : Bool) (d : Document) :
    (Worker.failDocument o code message retryable d).terminalDisposition =
      d.terminalDisposition := by
  unfold Worker.failDocument
  cases o.operationType with
  | preflight => rfl
  | delete => rfl
  | publish =>
    simp only [Worker.failPublication]
    cases o.preparedRevisionId.bind d.publicationForRevision with
    | none => rfl
    | some p =>
      simp only
      split <;> rfl

/-- Only a terminal rejection disposes of a document as rejected. -/
theorem Change.rejected (hc : Change s rejects now d d') (h : DocumentInv s now d)
    (hd' : d'.terminalDisposition = some .rejected) :
    d.terminalDisposition = some .rejected ∨ ∃ code, rejects code := by
  have fresh : ∀ {p : DeletionProgress} {x : TerminalDisposition}, p.terminalDisposition = x →
      x ≠ .rejected → some p.terminalDisposition = some TerminalDisposition.rejected →
      d.terminalDisposition = some .rejected ∨ ∃ code, rejects code := by
    intro p x hp hx he
    rw [hp] at he
    exact absurd (Option.some.inj he) hx
  cases hc with
  | reject _ _ _ _ _ _ hcode => exact Or.inr ⟨_,hcode⟩
  | cancel _ _ _ _ _ _ _ hdisposition => exact fresh hdisposition (by decide) hd'
  | delete _ _ hdisposition => exact fresh hdisposition (by decide) hd'
  | yield_ => cases hd'
  | bury hp => exact Or.inl ((h.deletion.of_some hp).disposition.trans hd')
  | buryOwn hp => exact Or.inl ((h.deletion.of_some hp).disposition.trans hd')
  | fail ho hopen hs hfailed code message outbox =>
    exact Or.inl ((failDocument_disposition _ code message _ (d.putOperation _)).symm.trans hd')
  | _ => exact Or.inl hd'

/-- Every document can be shown in a run without terminal rejections, and in any reachable
catalog exactly when no document carries the reason of its rejection. -/
theorem documents_shown (w : World) :
    (ReachableBy s enc (fun w e => ∀ code, ¬ RejectsPreflight s enc w e code) w →
      AllShown w.shared.catalog) ∧
    (Reachable s enc w → (AllShown w.shared.catalog ↔
      ∀ d, d ∈ w.shared.catalog.documents → ¬ CarriesReason d)) := by
  refine ⟨fun h => h.catalog.allShown_iff.2 ?_,fun h => h.catalog.allShown_iff⟩
  have hnone := h.documents (I := fun d => d.terminalDisposition ≠ some .rejected)
    (fun _ => False) (fun w e code he => he code) (fun _ _ hc => by cases hc)
    fun now d d' hinv hd hc hrejected => by
      rcases hc.rejected hinv hrejected with hd' | ⟨_,hfalse⟩
      · exact hd hd'
      · exact hfalse
  exact fun d hd hc => hnone d hd hc.1

instance (d : Document) : Decidable (CarriesReason d) := inferInstanceAs (Decidable (_ ∧ _ ∧ _))

/-- A rejected document cannot be shown while its content is purged. -/
theorem rejected_not_shown : ∃ w, Reachable booksSettings plainEncoding w ∧
    ¬ AllShown w.shared.catalog := by
  obtain ⟨w,d,hw,hd,ht⟩ := play_document booksSettings plainEncoding (fun _ _ => True) rejecting
    (fun d => CarriesReason d) (fun _ _ _ => trivial) (fun _ _ _ => trivial)
    (by decide +kernel)
  exact ⟨w,hw,fun hshown => hw.catalog.allShown_iff.1 hshown d hd (of_decide_eq_true ht)⟩

/-- Both documents of a replacement can be shown while it runs. -/
theorem documents_shown_replacing : ∃ w : World, w.shared.catalog.documents.rows.length = 2 ∧
    AllShown w.shared.catalog := by
  obtain ⟨w,hw,ht⟩ := play_any booksSettings plainEncoding (fun _ _ => True) replacing
    (fun w : World => w.shared.catalog.documents.rows.length = 2 &&
      w.shared.catalog.documents.rows.all fun d => !decide (CarriesReason d))
    (fun _ _ _ => trivial) (fun _ _ _ => trivial) (by decide +kernel)
  rw [Bool.and_eq_true, decide_eq_true_eq, List.all_eq_true] at ht
  exact ⟨w,ht.1,((documents_shown w).2 hw).2 fun d hd =>
    of_decide_eq_false (Bool.not_eq_true' _ ▸ ht.2 d hd)⟩

end Lifecycle
end PdfBridge
